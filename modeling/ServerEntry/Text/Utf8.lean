/-!
Byte strings and the text they spell.

Arguments, file names and environment values are byte strings; messages are text.  `pieces` reads a
byte string from the left as UTF-8: each well-formed sequence is one scalar value, and each longest
stretch that begins a sequence and cannot be completed is one fault.  Strict reading (`decode?`)
refuses a fault, lossy reading (`decodeLossy`) shows every fault as U+FFFD.
-/

namespace ServerEntry

abbrev Bytes := List UInt8

namespace Text.Utf8

/--
A sequence under way: the bits read so far, how many bytes are still to come, and the range the
next one has to lie in.  Only the byte after a lead has a narrower range than `80..BF`; that is
what keeps out overlong spellings, surrogates and values past `10FFFF`.
-/
structure Pending where
  bits : Nat
  missing : Nat
  low : Nat
  high : Nat
  deriving DecidableEq, Repr

/-- The sequence that a lead byte opens; `none` for a byte that opens nothing. -/
def lead? (byte : UInt8) : Option Pending :=
  let n := byte.toNat
  if n < 0x80 then some ⟨n, 0, 0x80, 0xBF⟩
  else if n < 0xC2 then none
  else if n < 0xE0 then some ⟨n - 0xC0, 1, 0x80, 0xBF⟩
  else if n = 0xE0 then some ⟨0x0, 2, 0xA0, 0xBF⟩
  else if n = 0xED then some ⟨0xD, 2, 0x80, 0x9F⟩
  else if n < 0xF0 then some ⟨n - 0xE0, 2, 0x80, 0xBF⟩
  else if n = 0xF0 then some ⟨0, 3, 0x90, 0xBF⟩
  else if n < 0xF4 then some ⟨n - 0xF0, 3, 0x80, 0xBF⟩
  else if n = 0xF4 then some ⟨4, 3, 0x80, 0x8F⟩
  else none

def Pending.accepts (p : Pending) (byte : UInt8) : Bool :=
  p.low ≤ byte.toNat && byte.toNat ≤ p.high

def Pending.push (p : Pending) (byte : UInt8) : Pending :=
  ⟨p.bits * 64 + (byte.toNat - 0x80), p.missing - 1, 0x80, 0xBF⟩

/-- A finished sequence is reported at once; an unfinished one stays pending. -/
def Pending.settle (p : Pending) : List (Option Char) × Option Pending :=
  if p.missing = 0 then ([some (Char.ofNat p.bits)], none) else ([], some p)

/-- Reads one byte where a sequence may begin. -/
def openWith (byte : UInt8) : List (Option Char) × Option Pending :=
  match lead? byte with
  | none => ([none], none)
  | some p => p.settle

/--
Reads one byte; a byte that the pending sequence cannot take ends it as a fault and opens anew.
-/
def feed (pending : Option Pending) (byte : UInt8) : List (Option Char) × Option Pending :=
  match pending with
  | none => openWith byte
  | some p =>
      if p.accepts byte then (p.push byte).settle
      else
        let next := openWith byte
        (none :: next.1, next.2)

def piecesFrom : Option Pending → Bytes → List (Option Char)
  | none, [] => []
  | some _, [] => [none]
  | pending, byte :: rest =>
      let next := feed pending byte
      next.1 ++ piecesFrom next.2 rest

/-- The scalar values that the bytes spell, with `none` in the place of each fault. -/
def pieces (bytes : Bytes) : List (Option Char) := piecesFrom none bytes

/-- The text that the bytes spell, if they are well-formed. -/
def decode? (bytes : Bytes) : Option String :=
  ((pieces bytes).mapM id).map String.ofList

def replacement : Char := '\uFFFD'

/-- The text that the bytes spell, with every fault shown as U+FFFD. -/
def decodeLossy (bytes : Bytes) : String :=
  String.ofList ((pieces bytes).map (·.getD replacement))

def encode (text : String) : Bytes :=
  text.toList.flatMap String.utf8EncodeChar

end Text.Utf8

end ServerEntry
