import ArcadeToolbox.Sqlstore.Regrouping
import ArcadeToolbox.Funder.Exhausted
import ArcadeToolbox.Storage.SyncRoundTrip
import ArcadeToolbox.Storage.Conflicts
import ArcadeToolbox.Storage.Discreet
import ArcadeToolbox.Storage.Reorg
import ArcadeToolbox.Metastore.Leases
import ArcadeToolbox.Monitor.LowWater
import ArcadeToolbox.System.RowLocks
import ArcadeToolbox.System.Synced
import ArcadeToolbox.System.Bindings
import ArcadeToolbox.System.Removals
import ArcadeToolbox.Funder.Fuel
import ArcadeToolbox.Storage.ChangeOutputs
import ArcadeToolbox.Utxostore.Replay
import ArcadeToolbox.Utxostore.Balance
import ArcadeToolbox.Aerostore.Reservations
import ArcadeToolbox.Aerostore.MintRaces
import ArcadeToolbox.Headers.Client
import ArcadeToolbox.Funder.Satoshi
import ArcadeToolbox.Sse.Frames
import ArcadeToolbox.Aerostore.Walks
