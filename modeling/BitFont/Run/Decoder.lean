import BitFont.Run.Basic

/-!
# Reading encoded data

A zero byte is one zero. Any other byte is a count, and the byte after it is the value.
-/

namespace BitFont.Run

/-- Reads one item; `none` at the end or behind a count without a value. -/
def next? : List UInt8 → Option (Run × List UInt8)
  | [] => none
  | count :: rest =>
    if count = 0 then
      some (zero, rest)
    else
      match rest with
      | [] => none
      | value :: rest => some (copies count.toNat value, rest)

/-- What is left after an item is shorter. -/
theorem length_of_next? {stream rest : List UInt8} {run : Run}
    (read : next? stream = some (run, rest)) : rest.length < stream.length := by
  unfold next? at read
  split at read
  · contradiction
  · split at read
    · simp only [Option.some.injEq, Prod.mk.injEq] at read
      obtain ⟨-, rfl⟩ := read
      simp
    · split at read
      · contradiction
      · simp only [Option.some.injEq, Prod.mk.injEq] at read
        obtain ⟨-, rfl⟩ := read
        simp only [List.length_cons]
        omega

/-- Reads a whole stream as items; `none` if the last one is cut off. -/
def items? (stream : List UInt8) : Option (List Run) :=
  match read : next? stream with
  | none => if stream.isEmpty then some [] else none
  | some (run, rest) =>
    have : rest.length < stream.length := length_of_next? read
    (items? rest).map (run :: ·)
termination_by stream.length

/-- The byte string that a stream stands for. -/
def decode? (stream : List UInt8) : Option (List UInt8) :=
  (items? stream).map (·.flatMap expand)

/-- Reads items until `wanted` bytes are there. Gives the bytes and the rest of the stream, and
`none` if the stream ends early or the last item overshoots. -/
def decodeExactly? (wanted : Nat) (stream : List UInt8) : Option (List UInt8 × List UInt8) :=
  match wanted with
  | 0 => some ([], stream)
  | _ + 1 =>
    match read : next? stream with
    | none => none
    | some (run, rest) =>
      have : rest.length < stream.length := length_of_next? read
      if run.length ≤ wanted then
        (decodeExactly? (wanted - run.length) rest).map fun found =>
          (run.expand ++ found.1, found.2)
      else
        none
termination_by stream.length

end BitFont.Run
