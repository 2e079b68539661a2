import Gazetteer.MessagePack.Writer

/-! Reading MessagePack. Every form of the format is read, whatever the width of its header. -/
namespace Gazetteer.MessagePack

-- Powers of natural numbers are those of core.
attribute [local instance (high)] instPowNat

/-- A value as it is read. Integers keep apart the families they were written in. -/
inductive Value where
  | nil
  | bool (b : Bool)
  /-- A number of the unsigned family. -/
  | unsigned (n : Nat)
  /-- A number of the signed family. -/
  | signed (n : Int)
  | single (bits : UInt32)
  | double (x : Binary64)
  /-- Text, which need not be valid UTF-8. -/
  | text (utf8 : Bytes)
  | binary (bytes : Bytes)
  | array (items : List Value)
  | map (entries : List (Value × Value))
  | extension (payload : Bytes)

/-- What the bytes at the head of a value say: a whole value, or how many parts follow. -/
inductive Opening where
  | whole (v : Value)
  | array (count : Nat)
  | map (count : Nat)

def take? (count : Nat) (bs : Bytes) : Option (Bytes × Bytes) :=
  let head := bs.take count
  if head.length = count then some (head, bs.drop count) else none

def number (bs : Bytes) : Nat := bs.foldl (fun n b => 256 * n + b.toNat) 0

def number? (count : Nat) (bs : Bytes) : Option (Nat × Bytes) :=
  (take? count bs).map fun (head, rest) => (number head, rest)

/-- The signed number whose two's complement of `count` bytes is `n`. -/
def twosComplement (count n : Nat) : Int := Int.bmod n (256 ^ count)

/-- A length of `count` bytes, then as many bytes as it says after `extra` more. -/
def sized? (count extra : Nat) (make : Bytes → Value) (bs : Bytes) : Option (Opening × Bytes) := do
  let (length, rest) ← number? count bs
  let (payload, rest) ← take? (length + extra) rest
  some (.whole (make payload), rest)

def fixed? (count : Nat) (make : Bytes → Value) (bs : Bytes) : Option (Opening × Bytes) :=
  (take? count bs).map fun (payload, rest) => (.whole (make payload), rest)

/-- The opening of the value at the head of the bytes, and the rest. -/
def opening? : Bytes → Option (Opening × Bytes)
  | [] => none
  | marker :: bs =>
    let m := marker.toNat
    let unsigned (count : Nat) := fixed? count (fun b => .unsigned (number b)) bs
    let signed (count : Nat) := fixed? count (fun b => .signed (twosComplement count (number b))) bs
    if m < 0x80 then some (.whole (.unsigned m), bs)
    else if m < 0x90 then some (.map (m - 0x80), bs)
    else if m < 0xa0 then some (.array (m - 0x90), bs)
    else if m < 0xc0 then fixed? (m - 0xa0) .text bs
    else if 0xe0 ≤ m then some (.whole (.signed (twosComplement 1 m)), bs)
    else match m with
      | 0xc0 => some (.whole .nil, bs)
      | 0xc2 => some (.whole (.bool false), bs)
      | 0xc3 => some (.whole (.bool true), bs)
      | 0xc4 => sized? 1 0 .binary bs
      | 0xc5 => sized? 2 0 .binary bs
      | 0xc6 => sized? 4 0 .binary bs
      | 0xc7 => sized? 1 1 .extension bs
      | 0xc8 => sized? 2 1 .extension bs
      | 0xc9 => sized? 4 1 .extension bs
      | 0xca => fixed? 4 (fun b => .single (UInt32.ofNat (number b))) bs
      | 0xcb => fixed? 8 (fun b => .double ⟨UInt64.ofNat (number b)⟩) bs
      | 0xcc => unsigned 1
      | 0xcd => unsigned 2
      | 0xce => unsigned 4
      | 0xcf => unsigned 8
      | 0xd0 => signed 1
      | 0xd1 => signed 2
      | 0xd2 => signed 4
      | 0xd3 => signed 8
      | 0xd4 => fixed? 2 .extension bs
      | 0xd5 => fixed? 3 .extension bs
      | 0xd6 => fixed? 5 .extension bs
      | 0xd7 => fixed? 9 .extension bs
      | 0xd8 => fixed? 17 .extension bs
      | 0xd9 => sized? 1 0 .text bs
      | 0xda => sized? 2 0 .text bs
      | 0xdb => sized? 4 0 .text bs
      | 0xdc => (number? 2 bs).map fun (count, rest) => (.array count, rest)
      | 0xdd => (number? 4 bs).map fun (count, rest) => (.array count, rest)
      | 0xde => (number? 2 bs).map fun (count, rest) => (.map count, rest)
      | 0xdf => (number? 4 bs).map fun (count, rest) => (.map count, rest)
      | _ => none

/-- Reads `count` things one after another; `done` holds those before them, the last first. -/
def readMany {α : Type} (read : Bytes → Option (α × Bytes)) (done : List α) :
    Nat → Bytes → Option (List α × Bytes)
  | 0, bs => some (done.reverse, bs)
  | count + 1, bs =>
    match read bs with
    | none => none
    | some (a, rest) => readMany read (a :: done) count rest

def readPair {α : Type} (read : Bytes → Option (α × Bytes)) (bs : Bytes) :
    Option ((α × α) × Bytes) := do
  let (a, rest) ← read bs
  let (b, rest) ← read rest
  some ((a, b), rest)

/-- The value at the head of the bytes, and the rest. Arrays and maps nest `depth` deep at most. -/
def readWithin : (depth : Nat) → Bytes → Option (Value × Bytes)
  | 0, bs =>
    match opening? bs with
    | some (.whole v, rest) => some (v, rest)
    | _ => none
  | depth + 1, bs =>
    match opening? bs with
    | none => none
    | some (.whole v, rest) => some (v, rest)
    | some (.array count, rest) =>
      (readMany (readWithin depth) [] count rest).map fun (vs, rest) => (.array vs, rest)
    | some (.map count, rest) =>
      (readMany (readPair (readWithin depth)) [] count rest).map fun (es, rest) => (.map es, rest)

def nestingLimit : Nat := 1023

/-- The value at the head of the bytes; what follows it does not matter. -/
def read? (bs : Bytes) : Option Value := (readWithin nestingLimit bs).map (·.1)

end Gazetteer.MessagePack
