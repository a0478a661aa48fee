/-!
# Monitors

A monitor follows what is done with a machine. It hears of each event together
with the machine as it then is, and cannot change it.
-/

namespace Retrocore

/-- A monitor of type `ω` that follows machines of type `κ` through events of
type `ε`. -/
class Monitor (ω κ ε : Type) where
  hear : ω → κ → ε → ω

/-- The monitor that follows nothing. -/
instance {κ ε : Type} : Monitor Unit κ ε := ⟨fun _ _ _ => ()⟩

end Retrocore
