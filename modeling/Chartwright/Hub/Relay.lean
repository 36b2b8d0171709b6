import Chartwright.Text.Basic
/-!
The relay between a session and its clients: changes raise a signal, and the relay takes the signal
down, hands the text on as it is at that moment, and is busy until the announcement has been sent.
Signals raised meanwhile are taken down afterwards, several of them as one.
-/
namespace Chartwright

/-- `signal` is up when a change was not handed on yet; `handed` is the text that was handed on
last. -/
structure Relay where
  signal : Bool
  busy : Bool
  handed : Option Text
deriving DecidableEq, Repr

namespace Relay

/-- What happens to a relay, with the text as it is at that moment. -/
inductive Event where
  | changed
  | take (code : Text)
  | done
deriving DecidableEq, Repr

def idle : Relay := ⟨false, false, none⟩

/-- One event. The signal is taken down only by a relay that is not busy. -/
def step (r : Relay) : Event → Relay
  | .changed => { r with signal := true }
  | .take code => if r.signal && !r.busy then ⟨false, true, some code⟩ else r
  | .done => { r with busy := false }

end Relay
end Chartwright
