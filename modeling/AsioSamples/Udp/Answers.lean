import AsioSamples.Socket
import Mathlib.Data.List.Basic

/-!
# What a UDP daytime server is for

Every datagram that is received is a request, and its sender is owed the next string of the
generator. A receive error is owed nothing. This is the whole purpose of both UDP servers,
and what each of them initiates is compared with it.
-/

namespace AsioSamples

structure Datagram where
  sender : Endpoint
  payload : Bytes
  deriving DecidableEq

abbrev Received := Except ErrorCode Datagram

structure Reply where
  destination : Endpoint
  message : Bytes
  deriving DecidableEq

def requests (os : List Received) : List Datagram := os.filterMap Except.toOption

/-- The replies that are owed after the receives `os`. -/
def answers (gen : ℕ → Bytes) (os : List Received) : List Reply :=
  (requests os).mapIdx fun k d => ⟨d.sender, gen k⟩

theorem requests_concat (os : List Received) (o : Received) :
    requests (os ++ [o]) = requests os ++ o.toOption.toList := by
  cases o <;> simp [requests, List.filterMap_append, List.filterMap_cons, Except.toOption]

variable (gen : ℕ → Bytes)

theorem answers_concat_ok (os : List Received) (d : Datagram) :
    answers gen (os ++ [.ok d]) = answers gen os ++ [⟨d.sender, gen (answers gen os).length⟩] := by
  simp [answers, requests_concat, Except.toOption]

theorem answers_concat_error (os : List Received) (e : ErrorCode) :
    answers gen (os ++ [.error e]) = answers gen os := by
  simp [answers, requests_concat, Except.toOption]

end AsioSamples
