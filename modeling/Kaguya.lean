import Kaguya.Lib.Table
import Kaguya.Lib.Strongest
import Kaguya.Lib.Markup
import Kaguya.Lib.Threads
import Kaguya.Lib.Trace
import Kaguya.Lib.Beside
import Kaguya.Lib.Dict
import Kaguya.Lib.Serial
import Kaguya.Lib.Exclusive
import Kaguya.Lib.Shell
import Kaguya.Lib.Alike
import Kaguya.Lib.Without
import Kaguya.Lib.Encoding
import Kaguya.Lib.Fields
import Kaguya.Lib.Json
import Kaguya.Lib.Form
import Kaguya.Lib.Template
import Kaguya.Auth.Store
import Kaguya.Auth.StoreProofs
import Kaguya.Auth.History
import Kaguya.Auth.Jwt
import Kaguya.Auth.Verify
import Kaguya.Auth.Acceptance
import Kaguya.Auth.Service
import Kaguya.Auth.ServiceProofs
import Kaguya.Auth.Runs
import Kaguya.Auth.Statements
import Kaguya.Auth.ReadPaths
import Kaguya.Auth.Isolation
import Kaguya.Auth.Faults
import Kaguya.Auth.DeleteRace
import Kaguya.Auth.Groups
import Kaguya.Auth.Accounts
import Kaguya.Auth.Provenance
import Kaguya.Auth.Lookup
import Kaguya.Auth.KeyCache
import Kaguya.Auth.KeyRetire
import Kaguya.Auth.Sessions
import Kaguya.Auth.SessionRuns
import Kaguya.Auth.Tokens
import Kaguya.Web.Server
import Kaguya.Web.Runs
import Kaguya.Web.Bookkeeping
import Kaguya.Web.Wire
import Kaguya.Web.Login
import Kaguya.Web.Expiry
import Kaguya.Web.Page
import Kaguya.Web.Api
import Kaguya.Web.Cookies
import Kaguya.Web.Lore
import Kaguya.Auth.Creation
import Kaguya.Auth.Nested
import Kaguya.Auth.Poison
import Kaguya.Auth.FailClosed
import Kaguya.Auth.Granted
import Kaguya.Auth.Sole
import Kaguya.Auth.Keys
import Kaguya.Auth.Thumbprint
import Kaguya.Auth.Startup
import Kaguya.Auth.Cli
import Kaguya.Auth.Names
import Kaguya.Auth.DeviceLogin
import Kaguya.Web.Identity
import Kaguya.Ops.Update
import Kaguya.Ops.Runs
import Kaguya.Ops.Phases
import Kaguya.Ops.Functions
import Kaguya.Ops.Course
import Kaguya.Ops.Restore
import Kaguya.Ops.Deployed
import Kaguya.Ops.Gates
import Kaguya.Ops.Lock
import Kaguya.Ops.Advance
import Kaguya.Ops.Prune
import Kaguya.Ops.Shape
import Kaguya.Ops.Quiesced
import Kaguya.Ops.Ends
import Kaguya.Ops.Notify
import Kaguya.Ops.Setup
import Kaguya.Ops.Configs
