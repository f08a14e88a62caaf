import PamSmsauth.Lib.CText
import PamSmsauth.Lib.Pool
import PamSmsauth.Lib.Utf8
import PamSmsauth.Lib.Json
import PamSmsauth.Lib.Sql
import PamSmsauth.Lib.Spread
import PamSmsauth.Lib.RefCount
import PamSmsauth.Lib.Links
import PamSmsauth.Lib.Probing
import PamSmsauth.Lib.Emitting
import PamSmsauth.Lib.Raising
import PamSmsauth.Lib.Form
import PamSmsauth.Lib.Mail
import PamSmsauth.Lib.Stacks
import PamSmsauth.Sms
import PamSmsauth.User
import PamSmsauth.Otp
import PamSmsauth.Table
import PamSmsauth.Client
import PamSmsauth.Authenticate
import PamSmsauth.Blocks
import PamSmsauth.Call
import PamSmsauth.Flow
import PamSmsauth.Run
import PamSmsauth.Store
import PamSmsauth.History
import PamSmsauth.Soundness
import PamSmsauth.Acceptance
import PamSmsauth.Message
import PamSmsauth.Exempt
import PamSmsauth.Failure
import PamSmsauth.Session
import PamSmsauth.Interleaving
import PamSmsauth.Isolation
import PamSmsauth.OneRow
import PamSmsauth.SoleRow
import PamSmsauth.OneCode
import PamSmsauth.Lifetime
import PamSmsauth.Proto
import PamSmsauth.Server
import PamSmsauth.Failover
import PamSmsauth.Survival
import PamSmsauth.Clients
import PamSmsauth.Handover
import PamSmsauth.JsonObject
import PamSmsauth.LinkHash
import PamSmsauth.Filling
import PamSmsauth.Objects
import PamSmsauth.Printbuf
import PamSmsauth.ArrayList
import PamSmsauth.JsonHeap
import PamSmsauth.Tokener
import PamSmsauth.Progress
import PamSmsauth.Parse
import PamSmsauth.JsonProto
import PamSmsauth.Response
import PamSmsauth.Numbering
import PamSmsauth.Serializer
import PamSmsauth.Literals
import PamSmsauth.RoundTrip
import PamSmsauth.WellFormed
import PamSmsauth.Budget
import PamSmsauth.Release
import PamSmsauth.Grafts
import PamSmsauth.Terminator
import PamSmsauth.Leftover
import PamSmsauth.Request
import PamSmsauth.Exchange
import PamSmsauth.Host
import PamSmsauth.Wiring
import PamSmsauth.EndToEnd
import PamSmsauth.Rounds
import PamSmsauth.Undisturbed
import PamSmsauth.Delivery
import PamSmsauth.Insert
import PamSmsauth.Quoting
import PamSmsauth.Gecos
import PamSmsauth.Options
import PamSmsauth.Settings
import PamSmsauth.Numerals
import PamSmsauth.Documented
import PamSmsauth.Columns
import PamSmsauth.Uniform
