import ArenaHash.Proofs.Container.SelfCheck
import ArenaHash.Proofs.Container.Capacity
import ArenaHash.Proofs.System.Balance
import ArenaHash.Script.BucketSession
import ArenaHash.Script.GrowthSession
import ArenaHash.Script.PoolSession
import ArenaHash.Script.Session
import ArenaHash.Proofs.Container.Refusals
import ArenaHash.Proofs.Caching.Twins
import ArenaHash.Proofs.System.Frugal
import ArenaHash.Proofs.Growth.Exact
import ArenaHash.Proofs.Table.Inline
import ArenaHash.Proofs.Pool.StackBump
import ArenaHash.Proofs.Container.Doubles
import ArenaHash.Proofs.Container.Occurrences
import ArenaHash.Proofs.Container.MapStates
import ArenaHash.Proofs.Container.Equality
import ArenaHash.Proofs.Container.PartialValues
import ArenaHash.Proofs.Container.RunOrder
import ArenaHash.Proofs.System.Copies
import ArenaHash.Proofs.Table.Redistribution
import ArenaHash.Proofs.Table.Relinking
import ArenaHash.Proofs.System.Redistribution
import ArenaHash.Proofs.System.Retention
import ArenaHash.Proofs.Container.Order
import ArenaHash.Proofs.Container.Rejections
import ArenaHash.Proofs.System.Iterators
import ArenaHash.Proofs.System.Relending
import ArenaHash.Proofs.System.Load
import ArenaHash.Proofs.Container.Attempts
import ArenaHash.Proofs.System.Renewal
import ArenaHash.Proofs.Container.Recheck
import ArenaHash.Proofs.Container.Building
import ArenaHash.Proofs.System.Residence
import ArenaHash.Proofs.Pool.Addresses
import ArenaHash.Proofs.System.Settling
import ArenaHash.Proofs.Table.Succession
