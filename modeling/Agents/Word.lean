/-! # Machine words

How many numbers there are of so many bits. Numbers that leave the program are of a fixed width;
inside of it they are exact, and are held against the width where it matters.
-/

namespace Agents.Word

def size (bits : Nat) : Nat := Nat.pow 2 bits

theorem size_pos (bits : Nat) : 0 < size bits := Nat.two_pow_pos bits

end Agents.Word
