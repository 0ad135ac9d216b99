import Backlands.Save.Stale
import Backlands.Items.Decay
import Backlands.Items.Uids
import Backlands.Save.Dirty
import Backlands.Market.Offers
import Backlands.Market.Inbox
import Backlands.Reactor.Order
import Backlands.Kv.Durability
import Backlands.Kv.Reads
import Backlands.Kv.Format
import Backlands.Conditions.RoundTrip
import Backlands.Conditions.Attributes
import Backlands.House.Framing
import Backlands.Net.RateLimiterBlocks
import Backlands.Net.PacketBacklog
import Backlands.Login.Reservations
import Backlands.Login.Secrets
import Backlands.Login.Entering
import Backlands.Login.Isolation
import Backlands.Login.WaitList
import Backlands.Login.Tokens
import Backlands.Bazaar.Lifecycle
import Backlands.Houses.Rent
import Backlands.Houses.Depot
import Backlands.Store.Purchase
import Backlands.Store.DailyOffers
import Backlands.Otb.Loader
import Backlands.World.CacheRoundTrip
import Backlands.World.PathDiagonals
import Backlands.World.SightLines
import Backlands.Players.Charms
import Backlands.Players.Party
import Backlands.Creatures.Walk
import Backlands.Echo.Rewards
import Backlands.Echo.Raids
import Backlands.Trades.Protocol
import Backlands.Guilds.Wars
import Backlands.Inventory.Money
import Backlands.Inventory.Counting
import Backlands.Tiles.Order
import Backlands.Tiles.Isolation
import Backlands.Creatures.Spawn
import Backlands.Net.Outgoing
import Backlands.Containers.Destinations
import Backlands.Containers.Weight
import Backlands.World.ItemStream
import Backlands.Players.Experience
import Backlands.Players.Tries
import Backlands.Conditions.Damage
import Backlands.Conditions.Lighting
import Backlands.Items.Imbuements
import Backlands.Items.Cloning
import Backlands.Net.Adler
import Backlands.Combat.AreaTable
import Backlands.Players.Wildcards
import Backlands.World.SpectatorVec
import Backlands.World.OpenList
import Backlands.Attributes.Block
import Backlands.Creatures.Checks
import Backlands.Creatures.Refresh
import Backlands.Players.QuickLoot
import Backlands.Net.Wire
