import Bindery.Http.Exchange

/-! # Clients that answer from a list -/

namespace Bindery.Http

/-- The answers still to be given, and the requests that have been answered. -/
structure Replay where
  answers : List (Except TransportError Response)
  seen : List Request := []
deriving Repr

/-- Gives the answers one after another, and the last answer when there are no more. -/
def Client.replay (label : String) (last : Except TransportError Response) :
    Client (StateM Replay) where
  label := label
  execute r := fun s => (s.answers.headD last, ⟨s.answers.tail, s.seen ++ [r]⟩)

end Bindery.Http
