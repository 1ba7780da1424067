import Apanel.Library.Table
import Apanel.Library.Causal
import Apanel.Indicators.Arithmetic
import Apanel.Indicators.WarmUp
import Apanel.Indicators.SeriesPath
import Apanel.Backend.IndicatorService
import Apanel.Backend.Calendar
import Apanel.States.Engine
import Apanel.Backend.Analysis
import Apanel.Backend.Freshness
import Apanel.Backend.Windows
import Apanel.Backend.Entering
import Apanel.Backend.RefreshTokens
import Apanel.Backend.NotificationDelivery
import Apanel.Backend.MonitorCapacity
import Apanel.Backend.NotificationHistory
import Apanel.Backend.Registration
import Apanel.Backend.Replay
import Apanel.Backend.EventPages
import Apanel.Frontend.AuthSession
import Apanel.Frontend.StorageLease
import Apanel.Backend.WatchColumns
import Apanel.Backend.DividendYield
import Apanel.Indicators.RequiredHistory
import Apanel.CalendarMerge
import Apanel.Hub.Rebuild
import Apanel.Hub.Repeats
import Apanel.Hub.Outages
import Apanel.Hub.SecurityMaster
import Apanel.Hub.Dividends
import Apanel.Hub.Bisection
import Apanel.Backend.ValueDemand
import Apanel.Backend.AlertDays
