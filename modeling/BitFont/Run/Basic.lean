/-!
# Run-length encoding

Equal neighbouring bytes are written as a count and a value, at most 255 at a time. A lone zero is
written as the single byte zero, which cannot be a count.
-/

namespace BitFont

def maxCount : Nat := 255

/-- One item of encoded data. -/
inductive Run where
  /-- A single zero byte. -/
  | zero
  /-- A byte written out `count` times. -/
  | copies (count : Nat) (value : UInt8)
  deriving DecidableEq, Repr

namespace Run

def size : Run → Nat
  | zero => 1
  | copies _ _ => 2

/-- The number of bytes that the item stands for. -/
def length : Run → Nat
  | zero => 1
  | copies count _ => count

/-- The bytes that the item stands for. -/
def expand : Run → List UInt8
  | zero => [0]
  | copies count value => List.replicate count value

/-- The item as it is written. -/
def bytes : Run → List UInt8
  | zero => [0]
  | copies count value => [UInt8.ofNat count, value]

@[simp] theorem length_expand (run : Run) : run.expand.length = run.length := by
  cases run <;> simp [expand, length]

@[simp] theorem length_bytes (run : Run) : run.bytes.length = run.size := by
  cases run <;> rfl

/-- Adds a byte in front of stretches of equal bytes. -/
def stretchStep (byte : UInt8) : List (Nat × UInt8) → List (Nat × UInt8)
  | [] => [(1, byte)]
  | (count, value) :: rest =>
    if byte = value then (count + 1, value) :: rest else (1, byte) :: (count, value) :: rest

/-- The longest stretches of equal neighbouring bytes, each with its length. -/
def stretches (bytes : List UInt8) : List (Nat × UInt8) :=
  bytes.foldr stretchStep []

/-- The last item of a stretch, for the bytes that the full items leave over. -/
def remainder (count : Nat) (value : UInt8) : List Run :=
  if count = 0 then []
  else if count = 1 ∧ value = 0 then [zero]
  else [copies count value]

/-- A stretch as items: full ones as long as possible, then the remainder. -/
def ofStretch (count : Nat) (value : UInt8) : List Run :=
  List.replicate (count / maxCount) (copies maxCount value) ++ remainder (count % maxCount) value

/-- The items of a byte string. -/
def ofBytes (bytes : List UInt8) : List Run :=
  (stretches bytes).flatMap fun stretch => ofStretch stretch.1 stretch.2

def encode (bytes : List UInt8) : List UInt8 :=
  (ofBytes bytes).flatMap Run.bytes

/-- The length of the encoded form, from the items alone. -/
def encodedLength (bytes : List UInt8) : Nat :=
  (ofBytes bytes).foldr (fun run length => run.size + length) 0

/-- The announced length is the length of what is written. -/
theorem length_encode (bytes : List UInt8) : (encode bytes).length = encodedLength bytes := by
  unfold encode encodedLength
  induction ofBytes bytes with
  | nil => rfl
  | cons run rest ih =>
    rw [List.flatMap_cons, List.length_append, ih, length_bytes, List.foldr_cons]

end Run

end BitFont
