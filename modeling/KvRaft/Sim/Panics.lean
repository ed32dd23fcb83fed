import KvRaft.Sim.Persistence

/-! When the simulator panics. No node does, whatever faults are injected, and so what is left is the limit on the
number of deliveries in a run until the network is idle, and sums that do not fit. -/

namespace KvRaft.Simulator

namespace Simulation
variable {D : Type} [Storage D] [Bincode] [FloatText] [Platform]
  {M : Membership} {config : Config} {s s' : Simulation D}
  {hand : Option Event} {id : NodeId}

section Total
variable (hdb : Storage.NeverPanics D)
include hdb

end Total
end Simulation

section Runs
variable [FloatText] [Xxh3] [BloomSizing] [Bincode] [Platform]

end Runs

section Concrete
open scoped Concrete
open Simulation

end Concrete
end KvRaft.Simulator
