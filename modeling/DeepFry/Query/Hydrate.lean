import DeepFry.Query.Merge

namespace DeepFry.Query
open Lmdb

variable (codec : Codec) (dictCache : DictCache)

-- One short read transaction per levId. A missing levId fails the batch, an undecodable payload
-- only loses its slot. The skip counter feeds a log line and is left out.
def hydrateLevIds (world : World) : Nat → List LevId →
    Except QueryError (List (LevId × DecodedEvent) × Nat)
  | tick,[] => .ok ([],tick)
  | tick,levId :: rest =>
    match getEventPayload (world tick).env levId with
    | .error error => .error (.Payload error)
    | .ok raw => do
      let (tail,tick) ← hydrateLevIds world (tick + 1) rest
      match decodeEventPayloadWithCache codec raw dictCache with
      | .ok decoded => return ((levId,decoded) :: tail,tick)
      | .error _ => return (tail,tick)

def hydrateLevIdsBatch (env : Env) (levIds : List LevId) :
    Except QueryError (List (LevId × DecodedEvent)) :=
  if levIds.isEmpty then .ok []
  else
    match batchGetEventPayloads env levIds with
    | .error error => .error (.Payload error)
    | .ok rawPairs => .ok (rawPairs.filterMap fun (levId,raw) =>
        match decodeEventPayloadWithCache codec raw dictCache with
        | .ok decoded => some (levId,decoded)
        | .error _ => none)

end DeepFry.Query
