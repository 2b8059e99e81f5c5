import PicX.Audit.Calendar
import PicX.Audit.Civil
import PicX.Audit.Clock
import PicX.Audit.Command
import PicX.Audit.Effects
import PicX.Audit.Event
import PicX.Audit.Evidence
import PicX.Audit.Honest
import PicX.Audit.Intact
import PicX.Audit.Lasting
import PicX.Audit.Layout
import PicX.Audit.Names
import PicX.Audit.Overflow
import PicX.Audit.Record
import PicX.Audit.Restart
import PicX.Audit.Retention
import PicX.Audit.Seals
import PicX.Audit.Serde
import PicX.Audit.Sink
import PicX.Audit.Verify
import PicX.Base.Bits
import PicX.Base.Chain
import PicX.Base.Der
import PicX.Base.Fallible
import PicX.Base.Json
import PicX.Base.LastGood
import PicX.Base.Machine
import PicX.Base.Net
import PicX.Base.Parts
import PicX.Base.Path
import PicX.Base.Program
import PicX.Base.Slice
import PicX.Base.Slots
import PicX.Base.Text
import PicX.Base.TextFormat
import PicX.Base.Trim
import PicX.Base.Value
import PicX.Core.AllowLists
import PicX.Core.Exposure
import PicX.Core.File
import PicX.Core.Layering
import PicX.Core.Leaves
import PicX.Core.RealmLeaves
import PicX.Core.Realms
import PicX.Core.Requests
import PicX.Core.Secrets
import PicX.Core.Settings
import PicX.Core.Surface
import PicX.Core.Unread
import PicX.Core.Validate
import PicX.Core.Values
import PicX.Keys.Base64
import PicX.Keys.Copies
import PicX.Keys.Core
import PicX.Keys.Encoding
import PicX.Keys.Failed
import PicX.Keys.Handover
import PicX.Keys.Lenient
import PicX.Keys.Maintain
import PicX.Keys.Migration
import PicX.Keys.Pass
import PicX.Keys.Punctual
import PicX.Keys.Ring
import PicX.Keys.Schedule
import PicX.Keys.Settled
import PicX.Keys.Thumbprint
import PicX.Keys.Upkeep
import PicX.Keys.Window
import PicX.Metrics.Core
import PicX.Metrics.Counting
import PicX.Metrics.Exposition
import PicX.Metrics.Registry
import PicX.Metrics.Scrape
import PicX.Realm.Algorithms
import PicX.Realm.Applicable
import PicX.Realm.Conformance
import PicX.Realm.Contract
import PicX.Realm.Crates
import PicX.Realm.Disclosures
import PicX.Realm.Exchange
import PicX.Realm.Expiry
import PicX.Realm.Form
import PicX.Realm.Forms
import PicX.Realm.Grammar
import PicX.Realm.KeyCaches
import PicX.Realm.Ledger
import PicX.Realm.Lineage
import PicX.Realm.Mapping
import PicX.Realm.Memo
import PicX.Realm.Por
import PicX.Realm.Presentation
import PicX.Realm.Profile
import PicX.Realm.Recorded
import PicX.Realm.Rotation
import PicX.Realm.RsaKey
import PicX.Realm.Scopes
import PicX.Realm.Source
import PicX.Realm.Templates
import PicX.Realm.Trust
import PicX.Realm.Validity
import PicX.Server.Compose
import PicX.Server.Generated
import PicX.Server.Host
import PicX.Server.Lifecycle
import PicX.Server.Magnitudes
import PicX.Server.Operations
import PicX.Server.Overwrites
import PicX.Server.Provision
import PicX.Server.Rings
import PicX.Server.Tokens
import PicX.Server.Witness
import PicX.Transport.Blocks
import PicX.Transport.Deadlines
import PicX.Transport.Guard
import PicX.Transport.Reload
import PicX.Transport.Requests
