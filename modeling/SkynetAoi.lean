import SkynetAoi.Aoi.Failing
import SkynetAoi.Aoi.Farewell
import SkynetAoi.Aoi.Greeting
import SkynetAoi.Aoi.Sides
import SkynetAoi.Aoi.Simulation
import SkynetAoi.Aoi.Synced
import SkynetAoi.Caoi.Account
import SkynetAoi.Caoi.Correct
import SkynetAoi.Caoi.Enter
import SkynetAoi.Caoi.FiniteMap
import SkynetAoi.Caoi.Idle
import SkynetAoi.Caoi.Insertion
import SkynetAoi.Caoi.Order
import SkynetAoi.Caoi.Sentinel
import SkynetAoi.Client.Applies
import SkynetAoi.Ctrl.Carried
import SkynetAoi.Game.Succession
import SkynetAoi.Gate.Bytes
import SkynetAoi.Gate.Forward
import SkynetAoi.Logind.Agree
import SkynetAoi.Logind.Exchange
import SkynetAoi.Netpack.Restore
import SkynetAoi.Redisd.Identity
import SkynetAoi.Scene.Discovery
import SkynetAoi.Seri.Accepts
import SkynetAoi.Skynet.Clock
import SkynetAoi.Skynet.Registry
import SkynetAoi.Skynet.Rwlock
import SkynetAoi.Skynet.Schedule
import SkynetAoi.User.Survives
import SkynetAoi.User.Unserialize
import SkynetAoi.Utils.Newset
import SkynetAoi.Watchdog.Orphan
import SkynetAoi.Watchdog.Session
import SkynetAoi.Watchdog.Unanswered
