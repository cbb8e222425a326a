import DeepFry.Query.Filter
import Mathlib.Data.List.Destutter
import Mathlib.Data.List.Sort

namespace DeepFry.Query
open Lmdb Bytes

inductive SelectedIndex where
  | Single (name : IndexName)
  | Multi (name : IndexName)
  deriving DecidableEq, Repr

def SelectedIndex.shortName : SelectedIndex → IndexName
  | .Single name | .Multi name => name

def selectIndex (filter : NostrFilter) : SelectedIndex :=
  if filter.ids.isSome then .Single .Event__id
  else if filter.authors.isSome && filter.kinds.isSome then .Multi .Event__pubkeyKind
  else if filter.authors.isSome then .Multi .Event__pubkey
  else if filter.kinds.isSome then .Multi .Event__kind
  else if filter.tags.isSome then .Multi .Event__tag
  else .Single .Event__created_at

-- A 32-byte id or pubkey from its hex form; anything else is skipped with a warning.
def decodePubkeyWarn (hex : Str) : Option Bytes :=
  match decodeHex hex with
  | some bytes => if bytes.length = 32 then some bytes else none
  | none => none

def isLowerHex (b : UInt8) : Bool := (48 ≤ b && b ≤ 57) || (97 ≤ b && b ≤ 102)

-- The value bytes of a tag start key: exactly 64 lowercase hex characters decode to 32 bytes,
-- every other value stands for itself, whatever the tag's letter.
def tagValueBytes (value : Str) : Bytes :=
  if value.length = 64 ∧ value.all isLowerHex then (decodeHex value).getD value else value

-- The value part of each start key, before the sort and the dedup.
def startValues (filter : NostrFilter) (selected : SelectedIndex) : List Bytes :=
  match selected with
  | .Single .Event__id => (filter.ids.getD []).filterMap decodePubkeyWarn
  | .Multi .Event__pubkey => (filter.authors.getD []).filterMap decodePubkeyWarn
  | .Multi .Event__kind => (filter.kinds.getD []).map (toLe 8)
  | .Multi .Event__pubkeyKind =>
    (filter.authors.getD []).flatMap fun hexPk =>
      match decodePubkeyWarn hexPk with
      | some pk => (filter.kinds.getD []).map fun kind => pk ++ toLe 8 kind
      | none => []
  | .Multi .Event__tag =>
    (filter.tags.getD []).flatMap fun tag =>
      match tag.name with
      | [nameByte] => tag.values.map fun value => nameByte :: tagValueBytes value
      | _ => []
  | .Single .Event__created_at => [[]]
  | _ => []

def buildStartKeys (filter : NostrFilter) (selected : SelectedIndex) (direction : ScanDirection) :
    List Bytes :=
  let ts := match direction with
    | .Reverse => filter.untilTs.getD u64Max
    | .Forward => filter.since.getD 0
  let keys := (startValues filter selected).map fun value => compositeKey value ts
  (keys.insertionSort (· ≤ ·)).destutter (· ≠ ·)

end DeepFry.Query
