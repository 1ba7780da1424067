import Mathlib.Data.List.Basic
import Mathlib.Data.List.Induction

/-!
# Causal computations on series

A function from a series of inputs to a series of outputs is *causal* when it reads its input
front to back: the outputs for a prefix are the prefix of the outputs, and the function does not
fail on a prefix of an input on which it succeeds. `scanPast` is the general loop of this kind
(a state, and read access to the earlier inputs); the combinators below keep causality.
-/

namespace Apanel

universe u v w

variable {ε : Type u} {α β γ δ σ : Type v}

theorem Except.bind_eq_ok {x : Except ε α} {f : α → Except ε β} {b : β} :
    (x >>= f) = .ok b ↔ ∃ a, x = .ok a ∧ f a = .ok b := by
  cases x <;> simp [bind, Except.bind]

theorem Except.exists_of_isOk {x : Except ε α} (h : x.isOk) : ∃ a, x = .ok a := by
  cases x with
  | error e => cases h
  | ok a => exact ⟨a, rfl⟩

theorem Except.ok_bind (a : α) (f : α → Except ε β) : (Except.ok a >>= f) = f a := rfl

theorem Except.map_eq_ok {x : Except ε α} {f : α → β} {b : β} :
    f <$> x = .ok b ↔ ∃ a, x = .ok a ∧ f a = b := by
  cases x <;> simp [Functor.map, Except.map]

theorem mapM_cons_eq_ok {f : α → Except ε β} {x xs out} :
    (x :: xs).mapM f = .ok out ↔ ∃ y ys, f x = .ok y ∧ xs.mapM f = .ok ys ∧ out = y :: ys := by
  rw [List.mapM_cons, Except.bind_eq_ok]
  refine exists_congr fun y => ?_
  rw [Except.bind_eq_ok]
  constructor
  · rintro ⟨hy, ys, hs, e⟩
    exact ⟨ys, hy, hs, (Except.ok.inj e).symm⟩
  · rintro ⟨ys, hy, hs, rfl⟩
    exact ⟨hy, ys, hs, rfl⟩

/-- The outputs of `f` on a prefix are a prefix of its outputs. -/
structure Causal (f : List α → Except ε (List β)) : Prop where
  length {xs ys} : f xs = .ok ys → ys.length = xs.length
  take {xs zs ys} : f (xs ++ zs) = .ok ys → f xs = .ok (ys.take xs.length)

/-- A loop over a series with a state and read access to the inputs already consumed, the most
recent one first. -/
def scanPast (step : σ → List α → α → Except ε (σ × β)) (s : σ) (past : List α) :
    List α → Except ε (List β)
  | [] => .ok []
  | x :: xs => do
    let (s, y) ← step s past x
    let ys ← scanPast step s (x :: past) xs
    return y :: ys

theorem scanPast_cons {step : σ → List α → α → Except ε (σ × β)} {s past x xs out} :
    scanPast step s past (x :: xs) = .ok out ↔
      ∃ s' y ys, step s past x = .ok (s', y) ∧ scanPast step s' (x :: past) xs = .ok ys ∧
        out = y :: ys := by
  simp only [scanPast, Except.bind_eq_ok, Prod.exists]
  constructor
  · rintro ⟨s', y, h, ys, hs, e⟩
    exact ⟨s', y, ys, h, hs, (Except.ok.inj e).symm⟩
  · rintro ⟨s', y, ys, h, hs, rfl⟩
    exact ⟨s', y, h, ys, hs, rfl⟩

theorem scanPast_causal (step : σ → List α → α → Except ε (σ × β)) (s : σ) (past : List α) :
    Causal (scanPast step s past) where
  length {xs ys} h := by
    induction xs generalizing s past ys with
    | nil => cases h; rfl
    | cons x xs ih =>
      obtain ⟨s', y, ys, -, hs, rfl⟩ := scanPast_cons.mp h
      simp [ih _ _ hs]
  take {xs zs ys} h := by
    induction xs generalizing s past ys with
    | nil => simp [scanPast]
    | cons x xs ih =>
      obtain ⟨s', y, ys, hx, hs, rfl⟩ := scanPast_cons.mp h
      exact scanPast_cons.mpr ⟨s', y, _, hx, ih _ _ hs, by simp⟩

namespace Causal

theorem const (b : β) : Causal fun xs : List α => (.ok (xs.map fun _ => b) : Except ε (List β)) where
  length h := by cases h; simp
  take h := by cases h; simp

theorem error (e : ε) : Causal fun _ : List α => (.error e : Except ε (List β)) where
  length h := by cases h
  take h := by cases h

theorem map {f : List α → Except ε (List β)} (hf : Causal f) (g : β → γ) :
    Causal fun xs => (·.map g) <$> f xs where
  length h := by
    obtain ⟨ys, hy, rfl⟩ := Except.map_eq_ok.mp h
    simpa using hf.length hy
  take h := by
    obtain ⟨ys, hy, rfl⟩ := Except.map_eq_ok.mp h
    exact Except.map_eq_ok.mpr ⟨_, hf.take hy, List.map_take⟩

theorem comp {f : List α → Except ε (List β)} {g : List β → Except ε (List γ)}
    (hf : Causal f) (hg : Causal g) : Causal fun xs => f xs >>= g where
  length h := by
    obtain ⟨ys, hy, hz⟩ := Except.bind_eq_ok.mp h
    rw [hg.length hz, hf.length hy]
  take {xs zs out} h := by
    obtain ⟨ys, hy, hz⟩ := Except.bind_eq_ok.mp h
    have hlen : (ys.take xs.length).length = xs.length := by simp [hf.length hy]
    have hz' : g (ys.take xs.length ++ ys.drop xs.length) = .ok out := by
      rwa [List.take_append_drop]
    exact Except.bind_eq_ok.mpr ⟨_, hf.take hy, by rw [hg.take hz', hlen]⟩

theorem zipWith {f : List α → Except ε (List β)} {g : List α → Except ε (List γ)}
    (hf : Causal f) (hg : Causal g) (k : β → γ → δ) :
    Causal fun xs => f xs >>= fun ys => (List.zipWith k ys ·) <$> g xs where
  length h := by
    obtain ⟨ys, hy, h⟩ := Except.bind_eq_ok.mp h
    obtain ⟨zs, hz, rfl⟩ := Except.map_eq_ok.mp h
    simp [hf.length hy, hg.length hz]
  take h := by
    obtain ⟨ys, hy, h⟩ := Except.bind_eq_ok.mp h
    obtain ⟨zs, hz, rfl⟩ := Except.map_eq_ok.mp h
    refine Except.bind_eq_ok.mpr ⟨_, hf.take hy, Except.map_eq_ok.mpr ⟨_, hg.take hz, ?_⟩⟩
    exact List.take_zipWith.symm

theorem contramap {f : List β → Except ε (List γ)} (hf : Causal f) (g : α → β) :
    Causal fun xs => f (xs.map g) where
  length h := by simpa using hf.length h
  take h := by
    rw [List.map_append] at h
    simpa using hf.take h

theorem mapM (f : α → Except ε β) : Causal (List.mapM f) where
  length {xs ys} h := by
    induction xs generalizing ys with
    | nil => cases h; rfl
    | cons x xs ih =>
      obtain ⟨y, ys, -, hs, rfl⟩ := mapM_cons_eq_ok.mp h
      simp [ih hs]
  take {xs zs ys} h := by
    induction xs generalizing ys with
    | nil => rfl
    | cons x xs ih =>
      obtain ⟨y, ys, hx, hs, rfl⟩ := mapM_cons_eq_ok.mp h
      exact mapM_cons_eq_ok.mpr ⟨y, _, hx, ih hs, by simp⟩

end Causal

/-! ## Outputs that depend on the prefix alone -/

/-- The values of `g` on the non-empty prefixes, the shortest one first. -/
def onPrefixes (g : List α → β) (xs : List α) : List β :=
  (List.range xs.length).map fun i => g (xs.take (i + 1))

@[simp] theorem onPrefixes_length (g : List α → β) (xs : List α) :
    (onPrefixes g xs).length = xs.length := by
  simp [onPrefixes]

@[simp] theorem onPrefixes_getElem (g : List α → β) (xs : List α) (i : ℕ)
    (h : i < (onPrefixes g xs).length) : (onPrefixes g xs)[i] = g (xs.take (i + 1)) := by
  simp [onPrefixes]

theorem onPrefixes_concat (g : List α → β) (xs : List α) (x : α) :
    onPrefixes g (xs ++ [x]) = onPrefixes g xs ++ [g (xs ++ [x])] := by
  rw [onPrefixes, List.length_append, List.length_singleton, List.range_succ, List.map_append]
  congr 1
  · refine List.map_congr_left fun i hi => ?_
    rw [List.take_append_of_le_length (List.mem_range.mp hi)]
  · rw [List.map_singleton, List.take_of_length_le (by simp)]

theorem onPrefixes_map (g : List β → γ) (f : α → β) (xs : List α) :
    onPrefixes g (xs.map f) = onPrefixes (fun ys => g (ys.map f)) xs := by
  simp [onPrefixes]

theorem map_onPrefixes (f : β → γ) (g : List α → β) (xs : List α) :
    (onPrefixes g xs).map f = onPrefixes (fun ys => f (g ys)) xs := by
  simp [onPrefixes]

/-- A causal computation whose last output is a function of the input gives that function of every
prefix. -/
theorem Causal.eq_onPrefixes {f : List α → Except ε (List β)} (hf : Causal f) {g : List α → β}
    (hlast : ∀ xs out, f xs = .ok out → ∀ y ∈ out.getLast?, y = g xs) {xs : List α} {out : List β}
    (h : f xs = .ok out) : out = onPrefixes g xs := by
  induction xs using List.reverseRecOn generalizing out with
  | nil => exact List.eq_nil_of_length_eq_zero (hf.length h)
  | append_singleton xs x ih =>
    have hlen : out.length = xs.length + 1 := by simpa using hf.length h
    obtain ⟨ys, y, rfl⟩ : ∃ ys y, out = ys ++ [y] :=
      ⟨_, _, (List.dropLast_append_getLast (List.ne_nil_of_length_eq_add_one hlen)).symm⟩
    have htake := hf.take h
    rw [List.take_left' (by simpa using hlen)] at htake
    rw [onPrefixes_concat, ih htake, hlast _ _ h y (by simp)]

/-- A loop whose step keeps an invariant of the consumed inputs, and outputs a function of them. -/
theorem scanPast_eq_onPrefixes {step : σ → List α → α → Except ε (σ × β)}
    (Inv : σ → List α → Prop) {Q : α → Prop} {g : List α → β}
    (hstep : ∀ s past x, Q x → Inv s past →
      ∃ s', step s past.reverse x = .ok (s', g (past ++ [x])) ∧ Inv s' (past ++ [x]))
    {s : σ} (hs : Inv s []) {xs : List α} (hxs : ∀ x ∈ xs, Q x) :
    scanPast step s [] xs = .ok (onPrefixes g xs) := by
  suffices h : ∀ past s, Inv s past → scanPast step s past.reverse xs =
      .ok ((List.range xs.length).map fun i => g (past ++ xs.take (i + 1))) from h [] s hs
  induction xs with
  | nil => exact fun _ _ _ => rfl
  | cons x xs ih =>
    intro past s hs
    obtain ⟨hx, hxs⟩ := List.forall_mem_cons.mp hxs
    obtain ⟨s', hok, hs'⟩ := hstep s past x hx hs
    have hrest := ih hxs (past ++ [x]) s' hs'
    rw [List.reverse_append, List.reverse_singleton, List.singleton_append] at hrest
    refine scanPast_cons.mpr ⟨s', _, _, hok, hrest, ?_⟩
    simp [List.range_succ_eq_map, Function.comp_def]

/-! ## Warming up -/

/-- Once an output is defined, all later ones are. -/
def WarmsUp (out : List (Option α)) : Prop := out.Pairwise fun a b => a.isSome → b.isSome

theorem WarmsUp.const_none (xs : List α) : WarmsUp (xs.map fun _ => (none : Option β)) :=
  List.pairwise_map.mpr (List.pairwise_of_forall fun _ _ => nofun)

/-- Undefined outputs in front do not matter. -/
theorem WarmsUp.replicate_append {out : List (Option α)} (h : WarmsUp out) (n : ℕ) :
    WarmsUp (List.replicate n none ++ out) := by
  refine List.pairwise_append.mpr ⟨?_, h, fun a ha b _ hsome => ?_⟩
  · exact List.pairwise_replicate.mpr (.inr nofun)
  · rw [List.eq_of_mem_replicate ha] at hsome
    cases hsome

theorem WarmsUp.map_some (xs : List α) : WarmsUp (xs.map some) :=
  List.pairwise_map.mpr (List.pairwise_of_forall fun _ _ _ => rfl)

/-- A loop warms up when a state in which it is ready gives an output, and an output leaves it ready. -/
theorem scanPast_warmsUp {step : σ → List α → α → Except ε (σ × Option β)}
    (ready : σ → List α → Prop)
    (hstep : ∀ s past x s' y, step s past x = .ok (s', y) →
      (ready s past → y.isSome) ∧ (y.isSome → ready s' (x :: past)))
    {s : σ} {past xs : List α} {out : List (Option β)} (h : scanPast step s past xs = .ok out) :
    WarmsUp out := by
  have hall {s : σ} {past xs : List α} {out : List (Option β)} (hready : ready s past)
      (h : scanPast step s past xs = .ok out) : ∀ y ∈ out, y.isSome := by
    induction xs generalizing s past out with
    | nil => cases h; nofun
    | cons x xs ih =>
      obtain ⟨s', y, ys, hx, hs, rfl⟩ := scanPast_cons.mp h
      obtain ⟨hsome, hnext⟩ := hstep s past x s' y hx
      exact List.forall_mem_cons.mpr ⟨hsome hready, ih (hnext (hsome hready)) hs⟩
  induction xs generalizing s past out with
  | nil => cases h; exact .nil
  | cons x xs ih =>
    obtain ⟨s', y, ys, hx, hs, rfl⟩ := scanPast_cons.mp h
    refine List.pairwise_cons.mpr ⟨fun y' hy' hy => ?_, ih hs⟩
    exact hall ((hstep s past x s' y hx).2 hy) hs y' hy'

/-- The outputs are defined from the `n`-th one on. -/
def StartsAt (n : ℕ) (out : List (Option α)) : Prop :=
  ∀ i (h : i < out.length), out[i].isSome ↔ n ≤ i + 1

theorem StartsAt.const_none {n : ℕ} {xs : List α} (h : xs.length < n) :
    StartsAt n (xs.map fun _ => (none : Option β)) := by
  intro i hi
  rw [List.length_map] at hi
  simp only [List.getElem_map, Option.isSome_none, Bool.false_eq_true, false_iff]
  omega

theorem StartsAt.map_some (xs : List α) : StartsAt 1 (xs.map some) := by
  intro i hi
  simp

/-- Undefined outputs in front. -/
theorem StartsAt.replicate_append {n : ℕ} {out : List (Option α)} (h : StartsAt n out) (h0 : 0 < n)
    (k : ℕ) : StartsAt (k + n) (List.replicate k none ++ out) := by
  intro i hi
  rw [List.getElem_append]
  split
  · next hlt =>
    rw [List.length_replicate] at hlt
    simp only [List.getElem_replicate, Option.isSome_none, Bool.false_eq_true, false_iff]
    omega
  · next hge =>
    rw [List.length_append, List.length_replicate] at hi
    rw [List.length_replicate] at hge
    rw [h _ (by rw [List.length_replicate]; omega), List.length_replicate]
    omega

/-- A loop whose step keeps an invariant of the consumed inputs, and has an output from the `n`-th
input on. -/
theorem scanPast_startsAt {step : σ → List α → α → Except ε (σ × Option β)}
    (Inv : σ → List α → Prop) {n : ℕ}
    (hstep : ∀ s past x s' y, Inv s past → step s past x = .ok (s', y) →
      (y.isSome ↔ n ≤ past.length + 1) ∧ Inv s' (x :: past))
    {s : σ} (hs : Inv s []) {xs : List α} {out : List (Option β)}
    (h : scanPast step s [] xs = .ok out) : StartsAt n out := by
  suffices hall : ∀ past s, Inv s past → ∀ out, scanPast step s past xs = .ok out →
      ∀ i (hi : i < out.length), out[i].isSome ↔ n ≤ past.length + (i + 1) by
    intro i hi
    rw [hall [] s hs out h i hi, List.length_nil, Nat.zero_add]
  clear hs h
  induction xs with
  | nil =>
    intro past s _ out h
    cases h
    nofun
  | cons x xs ih =>
    intro past s hs out h i hi
    obtain ⟨s', y, ys, hx, hrest, rfl⟩ := scanPast_cons.mp h
    obtain ⟨hy, hs'⟩ := hstep s past x s' y hs hx
    cases i with
    | zero => exact hy
    | succ i =>
      rw [List.getElem_cons_succ, ih _ _ hs' ys hrest i (by simpa using hi), List.length_cons]
      omega

theorem pairwise_zipWith {R : β → β → Prop} {S : γ → γ → Prop} {T : δ → δ → Prop} (k : β → γ → δ)
    (hk : ∀ a b c d, R a b → S c d → T (k a c) (k b d)) {ys : List β} {zs : List γ}
    (hy : ys.Pairwise R) (hz : zs.Pairwise S) : (List.zipWith k ys zs).Pairwise T := by
  induction ys generalizing zs with
  | nil => exact .nil
  | cons y ys ih =>
    cases zs with
    | nil => exact .nil
    | cons z zs =>
      obtain ⟨hy, hys⟩ := List.pairwise_cons.mp hy
      obtain ⟨hz, hzs⟩ := List.pairwise_cons.mp hz
      refine List.pairwise_cons.mpr ⟨fun w hw => ?_, ih hys hzs⟩
      rw [← List.map_uncurry_zip_eq_zipWith] at hw
      obtain ⟨p, hp, rfl⟩ := List.mem_map.mp hw
      exact hk _ _ _ _ (hy _ (List.of_mem_zip hp).1) (hz _ (List.of_mem_zip hp).2)

theorem forall₂_mapM {f : α → Except ε β} {xs : List α} {ys : List β} (h : xs.mapM f = .ok ys) :
    List.Forall₂ (fun x y => f x = .ok y) xs ys := by
  induction xs generalizing ys with
  | nil => cases h; exact .nil
  | cons x xs ih =>
    obtain ⟨y, ys, hx, hs, rfl⟩ := mapM_cons_eq_ok.mp h
    exact .cons hx (ih hs)

theorem mapM_total {f : α → Except ε β} (hf : ∀ x, ∃ y, f x = .ok y) (xs : List α) :
    ∃ ys, xs.mapM f = .ok ys := by
  induction xs with
  | nil => exact ⟨[], rfl⟩
  | cons x xs ih =>
    obtain ⟨y, hy⟩ := hf x
    obtain ⟨ys, hys⟩ := ih
    exact ⟨y :: ys, mapM_cons_eq_ok.mpr ⟨y, ys, hy, hys, rfl⟩⟩

theorem exists_mapM_eq_ok {f : α → Except ε β} {xs : List α} :
    (∃ ys, xs.mapM f = .ok ys) ↔ ∀ x ∈ xs, ∃ y, f x = .ok y := by
  induction xs with
  | nil => exact iff_of_true ⟨[], rfl⟩ nofun
  | cons x xs ih =>
    rw [List.forall_mem_cons, ← ih]
    constructor
    · rintro ⟨_, h⟩
      obtain ⟨y, ys, hx, hs, -⟩ := mapM_cons_eq_ok.mp h
      exact ⟨⟨y, hx⟩, ys, hs⟩
    · rintro ⟨⟨y, hx⟩, ys, hs⟩
      exact ⟨y :: ys, mapM_cons_eq_ok.mpr ⟨y, ys, hx, hs, rfl⟩⟩

theorem mapM_eq_ok_map {f : α → Except ε β} {g : α → β} {xs : List α}
    (h : ∀ x ∈ xs, f x = .ok (g x)) : xs.mapM f = .ok (xs.map g) := by
  induction xs with
  | nil => rfl
  | cons x xs ih =>
    obtain ⟨hx, hxs⟩ := List.forall_mem_cons.mp h
    exact mapM_cons_eq_ok.mpr ⟨_, _, hx, ih hxs, rfl⟩

theorem mem_of_mapM {f : α → Except ε β} {xs : List α} {ys : List β} (h : xs.mapM f = .ok ys)
    {y : β} : y ∈ ys ↔ ∃ x ∈ xs, f x = .ok y := by
  induction xs generalizing ys with
  | nil => cases h; simp
  | cons x xs ih =>
    obtain ⟨y', ys, hx, hs, rfl⟩ := mapM_cons_eq_ok.mp h
    have heq : f x = .ok y ↔ y = y' := by rw [hx, Except.ok.injEq, eq_comm]
    simp only [List.mem_cons, ih hs, exists_eq_or_imp, heq]

/-- The last output comes from the last input. -/
theorem forall₂_getLast? {P : α → β → Prop} {xs : List α} {ys : List β} (h : List.Forall₂ P xs ys) :
    ∀ y ∈ ys.getLast?, ∃ x ∈ xs.getLast?, P x y := by
  induction h with
  | nil => nofun
  | cons hxy hrest ih =>
    cases hrest with
    | nil => simpa using hxy
    | cons => simpa [List.getLast?_cons_cons] using ih

theorem forall₂_scanPast {step : σ → List α → α → Except ε (σ × β)} {P : α → β → Prop}
    (hstep : ∀ s past x s' y, step s past x = .ok (s', y) → P x y) {s : σ} {past xs : List α}
    {ys : List β} (h : scanPast step s past xs = .ok ys) : List.Forall₂ P xs ys := by
  induction xs generalizing s past ys with
  | nil => cases h; exact .nil
  | cons x xs ih =>
    obtain ⟨s', y, ys, hx, hs, rfl⟩ := scanPast_cons.mp h
    exact .cons (hstep s past x s' y hx) (ih hs)

/-- What holds of two inputs in order holds of their outputs. -/
theorem pairwise_of_forall₂ {P : α → β → Prop} {R : α → α → Prop} {S : β → β → Prop}
    (hP : ∀ x x' y y', P x y → P x' y' → R x x' → S y y') {xs : List α} {ys : List β}
    (h : List.Forall₂ P xs ys) (hxs : xs.Pairwise R) : ys.Pairwise S := by
  have hmem {xs : List α} {ys : List β} (h : List.Forall₂ P xs ys) :
      ∀ y ∈ ys, ∃ x ∈ xs, P x y := by
    induction h with
    | nil => nofun
    | cons hxy _ ih =>
      refine List.forall_mem_cons.mpr ⟨⟨_, List.mem_cons_self, hxy⟩, fun y hy => ?_⟩
      obtain ⟨x, hx, hxy⟩ := ih y hy
      exact ⟨x, List.mem_cons_of_mem _ hx, hxy⟩
  induction h with
  | nil => exact .nil
  | cons hxy hrest ih =>
    obtain ⟨hfirst, hxs⟩ := List.pairwise_cons.mp hxs
    refine List.pairwise_cons.mpr ⟨fun y hy => ?_, ih hxs⟩
    obtain ⟨x, hx, hxy'⟩ := hmem hrest y hy
    exact hP _ _ _ _ hxy hxy' (hfirst x hx)

end Apanel
