import Kota.Wallet.Completion
import Kota.ChainReplay
import Kota.Quorum
import Kota.Audit
import Kota.Concurrency
import Kota.Retries
import Kota.Wallet.Identity
import Kota.Idempotence
import Kota.Untrusted
import Kota.Bitcoin.Bip174
import Kota.Linearization
import Kota.ReadBack
import Kota.PsbtSession.Acknowledged
import Kota.ContentAddress
import Kota.ActiveKeys
import Kota.Membership
import Kota.Merging
import Kota.Backend
import Kota.Progress
import Kota.Faults
import Kota.Queries
import Kota.Listing
import Kota.Wakeups
import Kota.OverTables
import Kota.Authorization
import Kota.Serializable
import Kota.Isolation
import Kota.Refusals
