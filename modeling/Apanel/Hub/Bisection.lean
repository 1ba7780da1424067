import Apanel.Hub.Sync
import Mathlib.Data.List.Nodup

/-!
# Isolation of invalid symbols

The provider calls of `_fetch_with_invalid_symbol_isolation`, for a provider whose answer may depend
on the calls before. A rejected batch is split in halves; `isolate_spec` bounds the calls, says which
symbols end up as errors and which are answered, and that nothing follows an infrastructure error.
-/

namespace Apanel

variable {Symbol : Type}

/-- What a provider answers to a batch, after the earlier calls. -/
abbrev BatchProvider (Symbol : Type) :=
  List (List Symbol) → List Symbol → Except HubError (ProviderBatch Symbol)

/-- The answered batches and the symbols with an error. -/
abbrev IsolationResult (Symbol : Type) :=
  List (List Symbol × ProviderBatch Symbol) × List (Symbol × HubError)

/-- All provider calls so far, the latest last, and what the isolation returns or raises. -/
structure IsolationRun (Symbol : Type) where
  calls : List (List Symbol)
  result : Except HubError (IsolationResult Symbol)

/-- `_fetch_with_invalid_symbol_isolation` after the given calls. -/
def isolate (provider : BatchProvider Symbol) (calls : List (List Symbol)) (symbols : List Symbol) :
    IsolationRun Symbol :=
  let called := calls ++ [symbols]
  match provider calls symbols with
  | .ok bySymbol => ⟨called, .ok ([(symbols, bySymbol)], [])⟩
  | .error error =>
    if error.kind ≠ .invalidMarketData then ⟨called, .error error⟩
    else if _ : symbols.length ≤ 1 then ⟨called, .ok ([], symbols.map (·, error))⟩
    else
      let middle := symbols.length / 2
      let left := isolate provider called (symbols.take middle)
      match left.result with
      | .error error => ⟨left.calls, .error error⟩
      | .ok (batches, errors) =>
        let right := isolate provider left.calls (symbols.drop middle)
        ⟨right.calls, right.result.map fun (batches', errors') =>
          (batches ++ batches', errors ++ errors')⟩
termination_by symbols.length
decreasing_by all_goals simp only [List.length_take, List.length_drop]; omega

/-- For a provider without memory these are the calls of `fetchWithInvalidSymbolIsolation`. -/
theorem isolate_result (fetch : List Symbol → Except HubError (ProviderBatch Symbol))
    (calls : List (List Symbol)) (symbols : List Symbol) :
    (isolate (fun _ => fetch) calls symbols).result =
      fetchWithInvalidSymbolIsolation fetch symbols := by
  induction hn : symbols.length using Nat.strong_induction_on generalizing calls symbols with
  | _ n ih =>
  rw [isolate, fetchWithInvalidSymbolIsolation]
  cases fetch symbols with
  | ok bySymbol => rfl
  | error error =>
    dsimp only
    split
    · rfl
    · split
      · rfl
      · next hlength =>
        have hleft := ih (symbols.take (symbols.length / 2)).length
          (by rw [List.length_take]; omega) (calls ++ [symbols]) _ rfl
        have hright (calls : List (List Symbol)) := ih (symbols.drop (symbols.length / 2)).length
          (by rw [List.length_drop]; omega) calls _ rfl
        rw [← hleft]
        cases (isolate (fun _ => fetch) (calls ++ [symbols])
          (symbols.take (symbols.length / 2))).result with
        | error error => rfl
        | ok left =>
          dsimp only [bind, Except.bind]
          rw [hright]
          cases fetchWithInvalidSymbolIsolation fetch (symbols.drop (symbols.length / 2)) <;> rfl

/-! ## Invalid symbols -/

/-- The provider rejects a batch as invalid exactly when it contains a bad symbol. -/
def BatchProvider.RejectsExactly (provider : BatchProvider Symbol) (bad : Symbol → Prop) : Prop :=
  ∀ calls batch,
    ((∃ symbol ∈ batch, bad symbol) →
      ∃ error, provider calls batch = .error error ∧ error.kind = .invalidMarketData) ∧
    ((∀ symbol ∈ batch, ¬bad symbol) → ∃ bySymbol, provider calls batch = .ok bySymbol)

/-- What the isolation of some symbols comes to after the given calls. -/
structure Bisected (provider : BatchProvider Symbol) (bad : Symbol → Prop)
    (calls : List (List Symbol)) (symbols : List Symbol) (added : List (List Symbol))
    (batches : List (List Symbol × ProviderBatch Symbol)) (errors : List (Symbol × HubError)) :
    Prop where
  budget : added.length ≤ 2 * symbols.length - 1
  partition : (errors.map (·.1) ++ batches.flatMap (·.1)).Perm symbols
  rejected : ∀ error ∈ errors, bad error.1 ∧ error.2.kind = .invalidMarketData
  answered : ∀ batch ∈ batches, (∀ symbol ∈ batch.1, ¬bad symbol) ∧
    ∃ earlier, provider (calls ++ earlier) batch.1 = .ok batch.2 ∧ earlier ++ [batch.1] <+: added

theorem Bisected.append {provider : BatchProvider Symbol} {bad : Symbol → Prop}
    {calls : List (List Symbol)} {whole left right : List Symbol} {added added' : List (List Symbol)}
    {batches batches' : List (List Symbol × ProviderBatch Symbol)}
    {errors errors' : List (Symbol × HubError)} (hleft : left ≠ []) (hright : right ≠ [])
    (h : Bisected provider bad (calls ++ [whole]) left added batches errors)
    (h' : Bisected provider bad (calls ++ [whole] ++ added) right added' batches' errors') :
    Bisected provider bad calls (left ++ right) ([whole] ++ added ++ added') (batches ++ batches')
      (errors ++ errors') where
  budget := by
    have hbudget := h.budget
    have hbudget' := h'.budget
    have hpos := List.length_pos_iff.mpr hleft
    have hpos' := List.length_pos_iff.mpr hright
    simp only [List.length_append, List.length_singleton]
    omega
  partition := by
    rw [List.map_append, List.flatMap_append]
    refine .trans ?_ (h.partition.append h'.partition)
    simp only [List.append_assoc]
    refine List.Perm.append_left _ ?_
    rw [← List.append_assoc, ← List.append_assoc]
    exact List.perm_append_comm.append_right _
  rejected error herror := (List.mem_append.mp herror).elim (h.rejected error) (h'.rejected error)
  answered batch hbatch := by
    rcases List.mem_append.mp hbatch with hbatch | hbatch
    · obtain ⟨hgood, earlier, hanswer, hearlier⟩ := h.answered batch hbatch
      refine ⟨hgood, [whole] ++ earlier, by rwa [← List.append_assoc], ?_⟩
      rw [List.append_assoc, List.append_assoc]
      exact (List.prefix_append_right_inj _).mpr (hearlier.trans (List.prefix_append ..))
    · obtain ⟨hgood, earlier, hanswer, hearlier⟩ := h'.answered batch hbatch
      refine ⟨hgood, [whole] ++ added ++ earlier, by simpa only [List.append_assoc] using hanswer, ?_⟩
      rw [List.append_assoc ([whole] ++ added)]
      exact (List.prefix_append_right_inj _).mpr hearlier

theorem isolate_bisected {provider : BatchProvider Symbol} {bad : Symbol → Prop}
    (h : provider.RejectsExactly bad) (calls : List (List Symbol)) {symbols : List Symbol}
    (hne : symbols ≠ []) :
    ∃ added batches errors, isolate provider calls symbols = ⟨calls ++ added, .ok (batches, errors)⟩ ∧
      Bisected provider bad calls symbols added batches errors := by
  induction hn : symbols.length using Nat.strong_induction_on generalizing calls symbols with
  | _ n ih =>
  have hpos := List.length_pos_iff.mpr hne
  rw [isolate]
  by_cases hbad : ∃ symbol ∈ symbols, bad symbol
  · obtain ⟨error, herror, hkind⟩ := (h calls symbols).1 hbad
    rw [herror]
    dsimp only
    rw [if_neg (not_not.mpr hkind)]
    split
    · next hlength =>
      obtain ⟨symbol, rfl⟩ : ∃ symbol, symbols = [symbol] :=
        List.length_eq_one_iff.mp (Nat.le_antisymm hlength hpos)
      obtain ⟨_, hmem, hbad⟩ := hbad
      cases List.mem_singleton.mp hmem
      refine ⟨[[symbol]], [], [(symbol, error)], rfl, le_rfl, .refl _, fun error' herror' => ?_, nofun⟩
      cases List.mem_singleton.mp herror'
      exact ⟨hbad, hkind⟩
    · next hlength =>
      have hleft : symbols.take (symbols.length / 2) ≠ [] := by
        rw [ne_eq, ← List.length_eq_zero_iff, List.length_take]
        omega
      have hright : symbols.drop (symbols.length / 2) ≠ [] := by
        rw [ne_eq, ← List.length_eq_zero_iff, List.length_drop]
        omega
      obtain ⟨added, batches, errors, heq, hbisected⟩ := ih (symbols.take (symbols.length / 2)).length
        (by rw [List.length_take]; omega) (calls ++ [symbols]) hleft rfl
      obtain ⟨added', batches', errors', heq', hbisected'⟩ :=
        ih (symbols.drop (symbols.length / 2)).length (by rw [List.length_drop]; omega)
          (calls ++ [symbols] ++ added) hright rfl
      refine ⟨[symbols] ++ added ++ added', batches ++ batches', errors ++ errors', ?_, ?_⟩
      · rw [heq]
        dsimp only
        rw [heq']
        simp only [List.append_assoc]
        rfl
      · have happend := hbisected.append hleft hright hbisected'
        rwa [List.take_append_drop] at happend
  · push Not at hbad
    obtain ⟨bySymbol, hanswer⟩ := (h calls symbols).2 hbad
    rw [hanswer]
    refine ⟨[symbols], [(symbols, bySymbol)], [], rfl, ?_, ?_, nofun, fun batch hbatch => ?_⟩
    · rw [List.length_singleton]
      omega
    · simp
    · cases List.mem_singleton.mp hbatch
      exact ⟨hbad, [], by rwa [List.append_nil], List.prefix_refl _⟩

/-! ## Infrastructure errors -/

/-- The answer is no infrastructure error. -/
def Tolerated {α : Type} (answer : Except HubError α) : Prop :=
  ∀ error, answer = .error error → error.kind = .invalidMarketData

/-- No call of these is answered with an infrastructure error. -/
def AllTolerated (provider : BatchProvider Symbol) (calls : List (List Symbol)) :
    List (List Symbol) → Prop
  | [] => True
  | batch :: added => Tolerated (provider calls batch) ∧ AllTolerated provider (calls ++ [batch]) added

theorem allTolerated_append {provider : BatchProvider Symbol} {calls added added' : List (List Symbol)} :
    AllTolerated provider calls (added ++ added') ↔
      AllTolerated provider calls added ∧ AllTolerated provider (calls ++ added) added' := by
  induction added generalizing calls with
  | nil => simp [AllTolerated]
  | cons batch added ih => simp [AllTolerated, ih, and_assoc]

/-- None of the calls is answered with an infrastructure error, except for the last one where the
isolation raises that error. -/
def EndsWith {α : Type} (provider : BatchProvider Symbol) (calls added : List (List Symbol)) :
    Except HubError α → Prop
  | .ok _ => AllTolerated provider calls added
  | .error error => ∃ front last, added = front ++ [last] ∧ AllTolerated provider calls front ∧
    provider (calls ++ front) last = .error error ∧ error.kind ≠ .invalidMarketData

theorem isolate_tolerated (provider : BatchProvider Symbol) (calls : List (List Symbol))
    (symbols : List Symbol) :
    ∃ added, (isolate provider calls symbols).calls = calls ++ added ∧
      EndsWith provider calls added (isolate provider calls symbols).result := by
  induction hn : symbols.length using Nat.strong_induction_on generalizing calls symbols with
  | _ n ih =>
  rw [isolate]
  cases hanswer : provider calls symbols with
  | ok bySymbol =>
    have htolerated : Tolerated (provider calls symbols) := fun _ h => by cases hanswer.symm.trans h
    exact ⟨[symbols], rfl, htolerated, trivial⟩
  | error error =>
    dsimp only
    split
    · next hkind => exact ⟨[symbols], rfl, [], symbols, rfl, trivial, by rwa [List.append_nil], hkind⟩
    · next hkind =>
      have htolerated : Tolerated (provider calls symbols) := by
        intro error' herror'
        cases hanswer.symm.trans herror'
        exact not_not.mp hkind
      split
      · exact ⟨[symbols], rfl, htolerated, trivial⟩
      · next hlength =>
        obtain ⟨added, hcalls, hresult⟩ := ih (symbols.take (symbols.length / 2)).length
          (by rw [List.length_take]; omega) (calls ++ [symbols]) _ rfl
        generalize isolate provider (calls ++ [symbols]) (symbols.take (symbols.length / 2)) = left
          at hcalls hresult
        obtain ⟨leftCalls, leftResult⟩ := left
        obtain rfl : leftCalls = calls ++ [symbols] ++ added := hcalls
        cases leftResult with
        | error error' =>
          obtain ⟨front, last, rfl, hfront, hlast, hkind'⟩ := hresult
          refine ⟨[symbols] ++ (front ++ [last]), List.append_assoc .., [symbols] ++ front, last, rfl,
            ⟨htolerated, hfront⟩, ?_, hkind'⟩
          rwa [← List.append_assoc]
        | ok leftResult =>
          obtain ⟨added', hcalls', hresult'⟩ := ih (symbols.drop (symbols.length / 2)).length
            (by rw [List.length_drop]; omega) (calls ++ [symbols] ++ added) _ rfl
          dsimp only
          generalize isolate provider (calls ++ [symbols] ++ added)
            (symbols.drop (symbols.length / 2)) = right at hcalls' hresult'
          obtain ⟨rightCalls, rightResult⟩ := right
          obtain rfl : rightCalls = calls ++ [symbols] ++ added ++ added' := hcalls'
          refine ⟨[symbols] ++ added ++ added', by simp only [List.append_assoc], ?_⟩
          have hleft : AllTolerated provider calls ([symbols] ++ added) := ⟨htolerated, hresult⟩
          cases rightResult with
          | error error' =>
            obtain ⟨front, last, rfl, hfront, hlast, hkind'⟩ := hresult'
            refine ⟨[symbols] ++ added ++ front, last, by simp only [List.append_assoc], ?_, ?_, hkind'⟩
            · refine allTolerated_append.mpr ⟨hleft, ?_⟩
              rwa [← List.append_assoc]
            · simpa only [List.append_assoc] using hlast
          | ok rightResult =>
            refine allTolerated_append.mpr ⟨hleft, ?_⟩
            have hright : AllTolerated provider (calls ++ [symbols] ++ added) added' := hresult'
            rwa [← List.append_assoc]

theorem AllTolerated.of_mem {provider : BatchProvider Symbol} {calls earlier later : List (List Symbol)}
    {batch : List Symbol} (h : AllTolerated provider calls (earlier ++ batch :: later)) :
    Tolerated (provider (calls ++ earlier) batch) :=
  (allTolerated_append.mp h).2.1

/-- An isolation raises the infrastructure error of any of its calls, and that call is the last. -/
theorem isolate_infrastructure (provider : BatchProvider Symbol) (symbols : List Symbol)
    {earlier later : List (List Symbol)} {batch : List Symbol} {error : HubError}
    (hcalls : (isolate provider [] symbols).calls = earlier ++ batch :: later)
    (herror : provider earlier batch = .error error) (hkind : error.kind ≠ .invalidMarketData) :
    later = [] ∧ (isolate provider [] symbols).result = .error error := by
  obtain ⟨added, hadded, hends⟩ := isolate_tolerated provider [] symbols
  rw [List.nil_append] at hadded
  cases hresult : (isolate provider [] symbols).result with
  | ok result =>
    rw [hresult, ← hadded, hcalls] at hends
    exact absurd (AllTolerated.of_mem hends error herror) hkind
  | error error' =>
    rw [hresult, ← hadded, hcalls] at hends
    obtain ⟨front, last, heq, hfront, hlast, -⟩ := hends
    rcases List.eq_nil_or_concat later with rfl | ⟨later, last', rfl⟩
    · obtain ⟨rfl, hsame⟩ := List.append_inj' heq rfl
      cases hsame
      cases hlast.symm.trans herror
      exact ⟨rfl, rfl⟩
    · rw [List.concat_eq_append, ← List.cons_append, ← List.append_assoc] at heq
      obtain ⟨rfl, -⟩ := List.append_inj' heq rfl
      exact absurd (AllTolerated.of_mem hfront error herror) hkind

/-- For `n` distinct symbols of which some are bad, the isolation makes at most `2 n - 1` calls,
reports the bad symbols and returns answers of the others; no call follows an infrastructure
error, which is raised. -/
theorem isolate_spec (provider : BatchProvider Symbol) {symbols : List Symbol} (hne : symbols ≠ [])
    (hnodup : symbols.Nodup) :
    (∀ bad, provider.RejectsExactly bad →
      ∃ calls batches errors, isolate provider [] symbols = ⟨calls, .ok (batches, errors)⟩ ∧
        calls.length ≤ 2 * symbols.length - 1 ∧
        (∀ symbol, symbol ∈ errors.map (·.1) ↔ symbol ∈ symbols ∧ bad symbol) ∧
        (∀ symbol, symbol ∈ batches.flatMap (·.1) ↔ symbol ∈ symbols ∧ ¬bad symbol) ∧
        (errors.map (·.1) ++ batches.flatMap (·.1)).Nodup ∧
        (∀ error ∈ errors, error.2.kind = .invalidMarketData) ∧
        ∀ batch ∈ batches, ∃ earlier,
          earlier ++ [batch.1] <+: calls ∧ provider earlier batch.1 = .ok batch.2) ∧
    ∀ earlier batch later error, (isolate provider [] symbols).calls = earlier ++ batch :: later →
      provider earlier batch = .error error → error.kind ≠ .invalidMarketData →
        later = [] ∧ (isolate provider [] symbols).result = .error error := by
  refine ⟨fun bad h => ?_, fun _ _ _ _ => isolate_infrastructure provider symbols⟩
  obtain ⟨calls, batches, errors, heq, hbisected⟩ := isolate_bisected h [] hne
  have hmem (symbol : Symbol) : symbol ∈ symbols ↔
      symbol ∈ errors.map (·.1) ∨ symbol ∈ batches.flatMap (·.1) := by
    rw [← hbisected.partition.mem_iff, List.mem_append]
  have hbad {symbol : Symbol} (hsymbol : symbol ∈ errors.map (·.1)) : bad symbol := by
    obtain ⟨error, herror, rfl⟩ := List.mem_map.mp hsymbol
    exact (hbisected.rejected error herror).1
  have hgood {symbol : Symbol} (hsymbol : symbol ∈ batches.flatMap (·.1)) : ¬bad symbol := by
    obtain ⟨batch, hbatch, hsymbol⟩ := List.mem_flatMap.mp hsymbol
    exact (hbisected.answered batch hbatch).1 symbol hsymbol
  refine ⟨calls, batches, errors, heq, hbisected.budget, fun symbol => ?_, fun symbol => ?_,
    hbisected.partition.nodup_iff.mpr hnodup, fun error herror => (hbisected.rejected error herror).2,
    fun batch hbatch => ?_⟩
  · rw [hmem]
    exact ⟨fun hsymbol => ⟨.inl hsymbol, hbad hsymbol⟩,
      fun ⟨hsymbol, hb⟩ => hsymbol.resolve_right fun hsymbol => hgood hsymbol hb⟩
  · rw [hmem]
    exact ⟨fun hsymbol => ⟨.inr hsymbol, hgood hsymbol⟩,
      fun ⟨hsymbol, hb⟩ => hsymbol.resolve_left fun hsymbol => hb (hbad hsymbol)⟩
  · obtain ⟨-, earlier, hanswer, hearlier⟩ := hbisected.answered batch hbatch
    exact ⟨earlier, hearlier, hanswer⟩

/-- A provider that rejects the symbol 3. -/
def rejectsThree : BatchProvider ℕ := fun _ batch =>
  if 3 ∈ batch then .error ⟨.invalidMarketData, "OHLC prices must be greater than zero"⟩
  else .ok fun _ => some []

theorem rejectsThree_exactly : rejectsThree.RejectsExactly (· = 3) := by
  intro calls batch
  rw [rejectsThree]
  constructor
  · rintro ⟨symbol, hsymbol, rfl⟩
    exact ⟨_, if_pos hsymbol, rfl⟩
  · intro hgood
    exact ⟨_, if_neg fun hsymbol => hgood 3 hsymbol rfl⟩

theorem isolate_spec_three :
    ∃ calls batches errors, isolate rejectsThree [] [1, 2, 3, 4, 5] = ⟨calls, .ok (batches, errors)⟩ ∧
      calls.length ≤ 9 ∧ 3 ∈ errors.map (·.1) ∧ 5 ∈ batches.flatMap (·.1) := by
  obtain ⟨calls, batches, errors, heq, hbudget, hbad, hgood, -⟩ :=
    (isolate_spec rejectsThree (by decide : [1, 2, 3, 4, 5] ≠ []) (by decide)).1 _ rejectsThree_exactly
  exact ⟨calls, batches, errors, heq, hbudget, (hbad 3).mpr (by decide), (hgood 5).mpr (by decide)⟩

end Apanel
