import Borderless.Clipboard.EngineRun
import Borderless.Clipboard.LazyRefinement
import Borderless.Input.CaptureLoop
import Borderless.Input.Cursor
import Borderless.Input.Handoff
import Borderless.Input.KeyLink
import Borderless.Network.Deployment
import Borderless.Network.Flood
import Borderless.Network.Healing
import Borderless.Runtime.AcceptLoop
import Borderless.Runtime.Backoff
import Borderless.Runtime.ConfigKept
import Borderless.Runtime.CopyCount
import Borderless.Runtime.Duplex
import Borderless.Runtime.HubClipboard
import Borderless.Runtime.ImageFetch
import Borderless.Runtime.FirstUse
import Borderless.Runtime.SyncText
import Borderless.Transport.Authenticity
import Borderless.Transport.ClipboardFrame
import Borderless.Transport.HelloFrame
import Borderless.Transport.Persistence
import Borderless.Transport.RoundTrip
import Borderless.Input.StuckKeys
import Borderless.Input.KeyAgreement
import Borderless.Input.X11Capture
import Borderless.Input.Windows
import Borderless.Input.Emission
import Borderless.Input.Trackers
import Borderless.Input.Valuators
import Borderless.Input.Relay
import Borderless.Runtime.Sendable
import Borderless.Runtime.InputPath
import Borderless.Transport.HelloExchange
import Borderless.Transport.Pairing
import Borderless.Transport.Sas
