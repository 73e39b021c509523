import AssetCache.Front

namespace AssetCache

def Network.uniform : Network := fun _ => ⟨0, .response ⟨200, [], .empty⟩⟩

/-- The network that gives these answers at once, and no other. -/
def Network.recorded (answers : List (Request × Outcome)) : Network := fun r =>
  ⟨0, (answers.lookup r).getD .crash⟩

namespace Site

def withoutCalls (s : Site) : Site := s.withManager { s.manager with calls := [] }

def calls (s : Site) : List Request := s.manager.calls.reverse

/-- The requests that an install sends when it comes to its end. They do not depend on what the
network says to them, so that it can be asked beforehand. -/
def installCalls [Idna] (s : Site) : List Request :=
  let (_, dispatcher) := s.withoutCalls.dispatcher.install (Manager.worker .uniform)
  { s with dispatcher }.calls

def answerCalls [Idna] (s : Site) (r : Http.Inbound) (c : Circumstances) : List Request :=
  (s.withoutCalls.answer (Manager.worker .uniform) r c).2.calls

end Site

end AssetCache
