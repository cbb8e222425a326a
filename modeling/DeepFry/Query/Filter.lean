import DeepFry.Lmdb.Payload

namespace DeepFry.Query
open Lmdb

structure TagFilter where
  name : Str
  values : List Str
  deriving DecidableEq, Repr

structure NostrFilter where
  ids : Option (List Str) := none
  authors : Option (List Str) := none
  kinds : Option (List Nat) := none
  tags : Option (List TagFilter) := none
  since : Option Nat := none
  untilTs : Option Nat := none
  limit : Nat := 0
  deriving DecidableEq, Repr

structure PageCursor where
  createdAt : Nat
  levId : LevId
  deriving DecidableEq, Repr

inductive QueryError where
  | Payload (error : PayloadError)
  deriving DecidableEq, Repr

-- Rust's u64 parser: an optional leading plus, then at least one decimal digit, then no overflow.
def parseDigits : Bytes → Nat → Option Nat
  | [],acc => some acc
  | b :: rest,acc => if 48 ≤ b ∧ b ≤ 57 then parseDigits rest (10 * acc + (b.toNat - 48)) else none

def parseU64 (text : Str) : Option Nat :=
  let digits := if text.head? = some 43 then text.drop 1 else text
  if digits = [] then none
  else match parseDigits digits 0 with
    | some value => if value < 2^64 then some value else none
    | none => none

def expirationName : Str := [101,120,112,105,114,97,116,105,111,110]

-- NIP-40: some ["expiration", exp, ..] tag with 0 < exp ≤ now.
def isExpired (now : Nat) (event : NostrEvent) : Bool :=
  event.tags.any fun tag =>
    match tag with
    | name :: value :: _ =>
      name == expirationName &&
        match parseU64 value with
        | some exp => exp != 0 && decide (exp ≤ now)
        | none => false
    | _ => false

example : expirationName = "expiration".toUTF8.data.toList := rfl

-- The residual predicate on the decoded event: each present field must hold, values within a
-- field are alternatives, and every tag filter must be met by some tag of the event.
def tagMatches (tagFilter : TagFilter) (tag : List Str) : Bool :=
  match tag with
  | name :: value :: _ => name == tagFilter.name && tagFilter.values.contains value
  | _ => false

def residual (filter : NostrFilter) (event : NostrEvent) : Bool :=
  (match filter.kinds with | some kinds => kinds.contains event.kind | none => true) &&
  (match filter.authors with | some authors => authors.contains event.pubkey | none => true) &&
  (match filter.ids with | some ids => ids.contains event.id | none => true) &&
  (match filter.tags with
    | some tags => tags.all fun tagFilter => event.tags.any (tagMatches tagFilter)
    | none => true)

end DeepFry.Query
