import Optical.Window.Read

/-!
# Transfers

A transfer hands all bytes from the position on to a sink, chunk by chunk. It ends when a read gives
nothing, and fails if that is before the end of the window. A sink may take only so many bytes; the
window then stands behind the chunk that did not fit.
-/

namespace Optical

/-- The bytes that the receiver of a transfer has taken, and how many it takes at most. -/
structure Sink where
  /-- The greatest number of bytes that the sink holds, if there is one. -/
  room : Option Nat
  held : Bytes

namespace Sink

/-- A sink that has taken nothing. -/
def empty (room : Option Nat) : Sink := ⟨room, []⟩

/-- Hands bytes to a sink; one that has no room for them all keeps those that fit. -/
def write (sink : Sink) (bytes : Bytes) : Except MediumFault Unit × Sink :=
  match sink.room with
  | none => (.ok (), { sink with held := sink.held ++ bytes })
  | some room =>
      let free := room - sink.held.length
      if bytes.length ≤ free then (.ok (), { sink with held := sink.held ++ bytes })
      else (.error .fullSink, { sink with held := sink.held ++ bytes.take free })

end Sink

/-- What a transfer leaves behind. -/
structure Transfer where
  outcome : Except Error Unit
  window : Window
  sink : Sink

namespace Window

/-- The end of a transfer: it is complete only if the window is. -/
def endTransfer (w : Window) (sink : Sink) : Transfer :=
  if w.atEnd then ⟨.ok (), w, sink⟩
  else ⟨.error (.medium (.shortWindow w.available)), w, sink⟩

/-- Hands chunks of at most a size to a sink until a read gives nothing. -/
def transferChunks (chunk : Nat) (w : Window) (sink : Sink) : Query Transfer :=
  if min chunk w.available = 0 then .done (w.endTransfer sink)
  else
    .read (w.start + w.position) (min chunk w.available) fun
      | .error error => .done ⟨.error error, w, sink⟩
      | .ok bytes =>
          if bytes.length = 0 then .done (w.endTransfer sink)
          else
            match sink.write bytes with
            | (.error fault, full) =>
                .done ⟨.error (.medium fault), w.advance bytes.length, full⟩
            | (.ok (), more) => transferChunks chunk (w.advance bytes.length) more
termination_by w.available
decreasing_by simp only [available, advance] at *; omega

/-- The greatest number of bytes that a transfer reads at once. -/
def chunkSize : Nat := 65536

/-- Hands all bytes from the position on to a sink. -/
def transfer (w : Window) (sink : Sink) : Query Transfer :=
  transferChunks (max 1 (min chunkSize w.available)) w sink

/-- All bytes from the position on. -/
def readRemaining (w : Window) : Query (Answer Bytes) := do
  let ended ← w.transfer (.empty none)
  return (ended.outcome.map fun () => ended.sink.held, ended.window)

end Window
end Optical
