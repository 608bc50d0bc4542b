import Vigil.Delivery.Client
import Vigil.Runner
import Vigil.Template.Renderer

/-!
# Couriers with the standard client and renderer

A courier that reaches nobody, one that does as it is told, one that does the same with every request of a
kind, and an engine with the first of them.
-/

namespace Vigil

namespace Courier

def offline : Courier := ⟨.offline, .standard⟩

def scripted (exchanges : List Exchange) : Courier := ⟨.scripted exchanges, .standard⟩

def steady (exchange : Request → Exchange) : Courier := ⟨.steady exchange, .standard⟩

end Courier

/-- An engine that counts and reaches nobody. -/
def Engine.ofStore {σ : Type} (store : σ) : Engine σ := ⟨store, .offline, .fresh⟩

end Vigil
