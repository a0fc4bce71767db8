/-
# The event stream of a connection

`event_generator` of `sse_events` (`src/boveda/api.py`).  It formats its two events by
hand; `sub` is any text that an issuer has signed.  What a client reads is nevertheless
always these two events, with the values of the claims (`parse_stream`): `json.dumps`
leaves no character in its text that could end a line.
-/

import Boveda.Auth.Claims
import Boveda.Lib.EventStream
import Boveda.Lib.JsonDict

namespace Boveda
namespace Auth

open Lib

/-- `connect_data`. -/
def connectData (claims : TokenClaims) : List (String × String) :=
  [("status", "connected"), ("tenant_id", claims.tenantId.1), ("sub", claims.sub)]

/-- `event_generator`, with what each `yield` gives. -/
def eventGenerator (claims : TokenClaims) : List String :=
  ["event: connect\ndata: " ++ String.ofList (Json.dictText (connectData claims)) ++ "\n\n",
    "event: ping\ndata: \x7b\x7d\n\n"]

/-- What the client receives. -/
def stream (claims : TokenClaims) : List Char := (eventGenerator claims).flatMap String.toList

theorem oneLine_dictText (fields : List (String × String)) :
    EventStream.OneLine (Json.dictText fields) :=
  ⟨fun h => absurd (Json.printable_dictText fields _ h) (by decide),
    fun h => absurd (Json.printable_dictText fields _ h) (by decide)⟩

theorem stream_eq (claims : TokenClaims) : stream claims =
    [(['c', 'o', 'n', 'n', 'e', 'c', 't'], Json.dictText (connectData claims)),
      (['p', 'i', 'n', 'g'], ['\x7b', '\x7d'])].flatMap fun e => EventStream.write e.1 e.2 := by
  have hconnect : "event: connect\ndata: ".toList =
      ['e', 'v', 'e', 'n', 't', ':', ' ', 'c', 'o', 'n', 'n', 'e', 'c', 't', '\n',
        'd', 'a', 't', 'a', ':', ' '] := by decide
  have hping : "event: ping\ndata: \x7b\x7d\n\n".toList =
      EventStream.write ['p', 'i', 'n', 'g'] ['\x7b', '\x7d'] := by decide
  have hend : "\n\n".toList = ['\n', '\n'] := by decide
  simp [stream, eventGenerator, hconnect, hping, hend, EventStream.write]

/-- **What a client reads of a stream**, whatever the claims: two events, the data of the first
one a dictionary with the values of the claims. -/
theorem parse_stream (claims : TokenClaims) : ∃ data,
    EventStream.parse (stream claims) = [⟨['c', 'o', 'n', 'n', 'e', 'c', 't'], data, []⟩,
      ⟨['p', 'i', 'n', 'g'], ['\x7b', '\x7d'], []⟩] ∧
    Json.loads data = some (Json.ofDict (connectData claims)) := by
  refine ⟨Json.dictText (connectData claims), ?_, Json.loads_dictText _⟩
  rw [stream_eq, EventStream.parse_write]
  · rfl
  · simp only [List.forall_mem_cons]
    refine ⟨⟨⟨by decide, by decide⟩, oneLine_dictText _, by decide⟩,
      ⟨⟨by decide, by decide⟩, ⟨by decide, by decide⟩, by decide⟩, fun _ h => (nomatch h)⟩

end Auth
end Boveda
