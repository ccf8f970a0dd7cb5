import Gamnet.Lib.BlockStream
import Gamnet.Lib.LittleEndian
import Gamnet.Library.Buffer
import Gamnet.Lib.ByteString

/-!
# MD5

The digest from which session tokens are made. update fills a buffer of 64 bytes, transforms
whole blocks of its input in place and keeps the rest; finalize pads what is left, appends the
number of bits and writes the state out.

The hexadecimal digest does not depend on how a message is cut into calls of update: it is the
fold of transform over the blocks of the padded message (`hexdigest_of_updates`).
-/

namespace Gamnet
namespace MD5

/-- blocksize. -/
def blocksize : Nat := 64

def s11 : UInt32 := 7
def s12 : UInt32 := 12
def s13 : UInt32 := 17
def s14 : UInt32 := 22
def s21 : UInt32 := 5
def s22 : UInt32 := 9
def s23 : UInt32 := 14
def s24 : UInt32 := 20
def s31 : UInt32 := 4
def s32 : UInt32 := 11
def s33 : UInt32 := 16
def s34 : UInt32 := 23
def s41 : UInt32 := 6
def s42 : UInt32 := 10
def s43 : UInt32 := 15
def s44 : UInt32 := 21

def F (x y z : UInt32) : UInt32 := (x &&& y) ||| (~~~x &&& z)
def G (x y z : UInt32) : UInt32 := (x &&& z) ||| (y &&& ~~~z)
def H (x y z : UInt32) : UInt32 := x ^^^ y ^^^ z
def I (x y z : UInt32) : UInt32 := y ^^^ (x ||| ~~~z)

/-- rotate_left, by less than 32 bits and more than none. -/
def rotateLeft (x n : UInt32) : UInt32 :=
  (x <<< n) ||| (x >>> (32 - n))

/-- What FF, GG, HH and II do with their basic function: the new value of a. -/
def mix (basic : UInt32 → UInt32 → UInt32 → UInt32) (a b c d x s ac : UInt32) : UInt32 :=
  rotateLeft (a + basic b c d + x + ac) s + b

def FF := mix F
def GG := mix G
def HH := mix H
def II := mix I

/-- state, and the variables a, b, c and d of transform. -/
structure Registers where
  a : UInt32
  b : UInt32
  c : UInt32
  d : UInt32

inductive Register
  | a | b | c | d

def Registers.get (r : Registers) : Register → UInt32
  | .a => r.a
  | .b => r.b
  | .c => r.c
  | .d => r.d

def Registers.set (r : Registers) (value : UInt32) : Register → Registers
  | .a => { r with a := value }
  | .b => { r with b := value }
  | .c => { r with c := value }
  | .d => { r with d := value }

/-- A call of FF, GG, HH or II in transform. -/
structure Call where
  op : UInt32 → UInt32 → UInt32 → UInt32 → UInt32 → UInt32 → UInt32 → UInt32
  a : Register
  b : Register
  c : Register
  d : Register
  k : Nat
  s : UInt32
  ac : UInt32

/-- The four rounds of transform. -/
def calls : List Call :=
  [⟨FF, .a, .b, .c, .d, 0, s11, 0xd76aa478⟩,
    ⟨FF, .d, .a, .b, .c, 1, s12, 0xe8c7b756⟩,
    ⟨FF, .c, .d, .a, .b, 2, s13, 0x242070db⟩,
    ⟨FF, .b, .c, .d, .a, 3, s14, 0xc1bdceee⟩,
    ⟨FF, .a, .b, .c, .d, 4, s11, 0xf57c0faf⟩,
    ⟨FF, .d, .a, .b, .c, 5, s12, 0x4787c62a⟩,
    ⟨FF, .c, .d, .a, .b, 6, s13, 0xa8304613⟩,
    ⟨FF, .b, .c, .d, .a, 7, s14, 0xfd469501⟩,
    ⟨FF, .a, .b, .c, .d, 8, s11, 0x698098d8⟩,
    ⟨FF, .d, .a, .b, .c, 9, s12, 0x8b44f7af⟩,
    ⟨FF, .c, .d, .a, .b, 10, s13, 0xffff5bb1⟩,
    ⟨FF, .b, .c, .d, .a, 11, s14, 0x895cd7be⟩,
    ⟨FF, .a, .b, .c, .d, 12, s11, 0x6b901122⟩,
    ⟨FF, .d, .a, .b, .c, 13, s12, 0xfd987193⟩,
    ⟨FF, .c, .d, .a, .b, 14, s13, 0xa679438e⟩,
    ⟨FF, .b, .c, .d, .a, 15, s14, 0x49b40821⟩,
    ⟨GG, .a, .b, .c, .d, 1, s21, 0xf61e2562⟩,
    ⟨GG, .d, .a, .b, .c, 6, s22, 0xc040b340⟩,
    ⟨GG, .c, .d, .a, .b, 11, s23, 0x265e5a51⟩,
    ⟨GG, .b, .c, .d, .a, 0, s24, 0xe9b6c7aa⟩,
    ⟨GG, .a, .b, .c, .d, 5, s21, 0xd62f105d⟩,
    ⟨GG, .d, .a, .b, .c, 10, s22, 0x2441453⟩,
    ⟨GG, .c, .d, .a, .b, 15, s23, 0xd8a1e681⟩,
    ⟨GG, .b, .c, .d, .a, 4, s24, 0xe7d3fbc8⟩,
    ⟨GG, .a, .b, .c, .d, 9, s21, 0x21e1cde6⟩,
    ⟨GG, .d, .a, .b, .c, 14, s22, 0xc33707d6⟩,
    ⟨GG, .c, .d, .a, .b, 3, s23, 0xf4d50d87⟩,
    ⟨GG, .b, .c, .d, .a, 8, s24, 0x455a14ed⟩,
    ⟨GG, .a, .b, .c, .d, 13, s21, 0xa9e3e905⟩,
    ⟨GG, .d, .a, .b, .c, 2, s22, 0xfcefa3f8⟩,
    ⟨GG, .c, .d, .a, .b, 7, s23, 0x676f02d9⟩,
    ⟨GG, .b, .c, .d, .a, 12, s24, 0x8d2a4c8a⟩,
    ⟨HH, .a, .b, .c, .d, 5, s31, 0xfffa3942⟩,
    ⟨HH, .d, .a, .b, .c, 8, s32, 0x8771f681⟩,
    ⟨HH, .c, .d, .a, .b, 11, s33, 0x6d9d6122⟩,
    ⟨HH, .b, .c, .d, .a, 14, s34, 0xfde5380c⟩,
    ⟨HH, .a, .b, .c, .d, 1, s31, 0xa4beea44⟩,
    ⟨HH, .d, .a, .b, .c, 4, s32, 0x4bdecfa9⟩,
    ⟨HH, .c, .d, .a, .b, 7, s33, 0xf6bb4b60⟩,
    ⟨HH, .b, .c, .d, .a, 10, s34, 0xbebfbc70⟩,
    ⟨HH, .a, .b, .c, .d, 13, s31, 0x289b7ec6⟩,
    ⟨HH, .d, .a, .b, .c, 0, s32, 0xeaa127fa⟩,
    ⟨HH, .c, .d, .a, .b, 3, s33, 0xd4ef3085⟩,
    ⟨HH, .b, .c, .d, .a, 6, s34, 0x4881d05⟩,
    ⟨HH, .a, .b, .c, .d, 9, s31, 0xd9d4d039⟩,
    ⟨HH, .d, .a, .b, .c, 12, s32, 0xe6db99e5⟩,
    ⟨HH, .c, .d, .a, .b, 15, s33, 0x1fa27cf8⟩,
    ⟨HH, .b, .c, .d, .a, 2, s34, 0xc4ac5665⟩,
    ⟨II, .a, .b, .c, .d, 0, s41, 0xf4292244⟩,
    ⟨II, .d, .a, .b, .c, 7, s42, 0x432aff97⟩,
    ⟨II, .c, .d, .a, .b, 14, s43, 0xab9423a7⟩,
    ⟨II, .b, .c, .d, .a, 5, s44, 0xfc93a039⟩,
    ⟨II, .a, .b, .c, .d, 12, s41, 0x655b59c3⟩,
    ⟨II, .d, .a, .b, .c, 3, s42, 0x8f0ccc92⟩,
    ⟨II, .c, .d, .a, .b, 10, s43, 0xffeff47d⟩,
    ⟨II, .b, .c, .d, .a, 1, s44, 0x85845dd1⟩,
    ⟨II, .a, .b, .c, .d, 8, s41, 0x6fa87e4f⟩,
    ⟨II, .d, .a, .b, .c, 15, s42, 0xfe2ce6e0⟩,
    ⟨II, .c, .d, .a, .b, 6, s43, 0xa3014314⟩,
    ⟨II, .b, .c, .d, .a, 13, s44, 0x4e0811a1⟩,
    ⟨II, .a, .b, .c, .d, 4, s41, 0xf7537e82⟩,
    ⟨II, .d, .a, .b, .c, 11, s42, 0xbd3af235⟩,
    ⟨II, .c, .d, .a, .b, 2, s43, 0x2ad7d2bb⟩,
    ⟨II, .b, .c, .d, .a, 9, s44, 0xeb86d391⟩]

/-- One of the calls, with the words x of the block. -/
def Call.run (x : List UInt32) (r : Registers) (q : Call) : Registers :=
  r.set (q.op (r.get q.a) (r.get q.b) (r.get q.c) (r.get q.d) (x.getD q.k 0) q.s q.ac) q.a

/-- decode of the first len bytes. -/
def decode (input : Bytes) (len : Nat) : List UInt32 :=
  (List.range ((len + 3) / 4)).map fun i =>
    let j := 4 * i
    (input.getD j 0).toUInt32 ||| ((input.getD (j + 1) 0).toUInt32 <<< 8) |||
      ((input.getD (j + 2) 0).toUInt32 <<< 16) ||| ((input.getD (j + 3) 0).toUInt32 <<< 24)

/-- The four bytes that encode writes for a word. -/
def encodeWord (w : UInt32) : Bytes :=
  [(w &&& 0xff).toUInt8, ((w >>> 8) &&& 0xff).toUInt8, ((w >>> 16) &&& 0xff).toUInt8,
    ((w >>> 24) &&& 0xff).toUInt8]

/-- encode. -/
def encode (input : List UInt32) : Bytes :=
  input.flatMap encodeWord

/-- transform, which adds what the rounds make of the state to the state. -/
def transform (state : Registers) (block : Bytes) : Registers :=
  let r := calls.foldl (Call.run (decode block blocksize)) state
  { a := state.a + r.a, b := state.b + r.b, c := state.c + r.c, d := state.d + r.d }

end MD5

/-- The fields of a digest. -/
structure MD5 where
  finalized : Bool
  buffer : Bytes
  countLo : UInt32
  countHi : UInt32
  state : MD5.Registers
  digest : Bytes
  sized : buffer.length = 64

namespace MD5

/-- The state that init loads. -/
def initState : Registers :=
  { a := 0x67452301, b := 0xefcdab89, c := 0x98badcfe, d := 0x10325476 }

/-- init. The arrays are left as they are. -/
def init (m : MD5) : MD5 :=
  { m with finalized := false, countLo := 0, countHi := 0, state := initState }

/-- n bytes of the input from i on, or none if they are not all there. -/
def bytesAt (input : Bytes) (i n : Nat) : Option Bytes :=
  if i + n ≤ input.length then some ((input.drop i).take n) else none

/-- memcpy to an offset of the buffer, or none if the bytes do not fit. -/
def store (m : MD5) (offset : Nat) (bytes : Bytes) : Option MD5 :=
  if offset + bytes.length ≤ blocksize then
    some
      { m with
        buffer := Buffer.overwrite m.buffer offset bytes
        sized := by rw [Buffer.overwrite_length, m.sized] }
  else none

/-- The loop over the whole blocks of the input. Its condition is a sum of 32 bits, which may
wrap; the loop that goes on behind 2^26 rounds never ends. -/
def transformBlocks (input : Bytes) (length : UInt32) :
    Nat → Registers → UInt32 → Option (Registers × UInt32)
  | 0, _, _ => none
  | rounds + 1, state, i =>
      if i + 64 ≤ length then
        (bytesAt input i.toNat blocksize).bind fun block =>
          transformBlocks input length rounds (transform state block) (i + 64)
      else some (state, i)

/-- The index of the first free byte of the buffer. -/
def index (m : MD5) : UInt32 :=
  m.countLo / 8 % 64

/-- The number of bits behind that many more bytes. -/
def addCount (m : MD5) (length : UInt32) : MD5 :=
  let lo := m.countLo + (length <<< 3)
  let carry : UInt32 := if lo < length <<< 3 then 1 else 0
  { m with countLo := lo, countHi := m.countHi + carry + (length >>> 29) }

/-- update, or none if it reads behind the input or does not return. -/
def update (m : MD5) (input : Bytes) (length : UInt32) : Option MD5 :=
  let index := m.index
  let m := m.addCount length
  let firstpart := 64 - index
  if firstpart ≤ length then
    (bytesAt input 0 firstpart.toNat).bind fun part =>
    (m.store index.toNat part).bind fun m =>
    (transformBlocks input length (2 ^ 26) (transform m.state m.buffer) firstpart).bind fun p =>
    (bytesAt input p.2.toNat (length - p.2).toNat).bind fun rest =>
    { m with state := p.1 }.store 0 rest
  else
    (bytesAt input 0 length.toNat).bind fun rest =>
    m.store index.toNat rest

/-- padding. -/
def padding : Bytes :=
  0x80 :: List.replicate 63 0

/-- finalize. -/
def finalize (m : MD5) : Option MD5 :=
  if m.finalized then some m
  else
    let bits := encode [m.countLo, m.countHi]
    let index := m.countLo / 8 % 64
    let padLen := if index < 56 then 56 - index else 120 - index
    (m.update padding padLen).bind fun m =>
    (m.update bits 8).map fun m =>
    { m with
      digest := encode [m.state.a, m.state.b, m.state.c, m.state.d]
      buffer := List.replicate blocksize 0
      countLo := 0
      countHi := 0
      finalized := true
      sized := by simp [blocksize] }

/-- The two characters that "%02x" prints for a byte. -/
def hexByte (byte : UInt8) : List Char :=
  [(byte.toNat / 16).digitChar, (byte.toNat % 16).digitChar]

/-- hexdigest. -/
def hexdigest (m : MD5) : List Char :=
  if m.finalized then m.digest.flatMap hexByte else []

/-- Calls of update with whole strings. -/
def updates (m : MD5) (pieces : List Bytes) : Option MD5 :=
  pieces.foldlM (fun m piece => m.update piece (UInt32.ofNat piece.length)) m

/-- The constructor with a text, and hexdigest. -/
def md5 (m : MD5) (text : Bytes) : Option (List Char) :=
  ((m.init.update text (UInt32.ofNat text.length)).bind finalize).map hexdigest

/-- The message with 0x80 behind it, zeros up to eight bytes below a whole block, and the
number of its bits. -/
def padded (message : Bytes) : Bytes :=
  message ++ (0x80 :: List.replicate ((119 - message.length % 64) % 64) 0) ++
    LittleEndian.encode 8 (8 * message.length)

/-- The padded message is made of whole blocks. -/
theorem padded_length
    (message : Bytes) :
    (padded message).length % blocksize = 0 := by
  simp only [padded, blocksize, List.length_append, List.length_cons, List.length_replicate,
    LittleEndian.encode_length]
  omega

/-- The state behind the whole blocks of a message, and the bytes behind them. -/
def absorbed (message : Bytes) : Registers × Bytes :=
  BlockStream.absorb transform blocksize initState message

/-- The digest of a message. -/
def digestOf (message : Bytes) : Bytes :=
  let state := (absorbed (padded message)).1
  encode [state.a, state.b, state.c, state.d]

/-- No byte of the padded message is left out of the digest. -/
theorem absorbed_padded
    (message : Bytes) :
    (absorbed (padded message)).2 = [] := by
  have hrest := BlockStream.absorb_rest_length transform (n := blocksize) (by decide) initState
    (padded message)
  rw [padded_length] at hrest
  exact List.length_eq_zero_iff.mp hrest

/-- The message has gone through update, and finalize has not been called. -/
structure Absorbs (m : MD5) (message : Bytes) : Prop where
  notFinalized : m.finalized = false
  count : m.countLo.toNat + 2 ^ 32 * m.countHi.toNat = 8 * message.length % 2 ^ 64
  state : m.state = (absorbed message).1
  buffered : m.buffer.take (message.length % 64) = (absorbed message).2

section Update

variable {m : MD5} {message input data : Bytes} {length : UInt32}

theorem init_absorbs
    (m : MD5) :
    Absorbs m.init [] := by
  have hempty : absorbed [] = (initState, []) :=
    BlockStream.absorb_short transform initState (by decide)
  exact ⟨rfl, rfl, by rw [hempty]; rfl, by rw [hempty]; rfl⟩

/-- Behind a message the buffer holds what is left of it. -/
theorem Absorbs.index_toNat
    (h : Absorbs m message) :
    m.index.toNat = message.length % 64 := by
  have hlo : m.countLo.toNat = 8 * message.length % 2 ^ 32 := by
    have hcount := h.count
    have hlt := m.countLo.toNat_lt
    omega
  simp only [index, UInt32.toNat_mod, UInt32.toNat_div, hlo, UInt32.reduceToNat]
  omega

/-- Sixty-four bits count the bits. -/
theorem addCount_count
    {n : Nat}
    (hcount : m.countLo.toNat + 2 ^ 32 * m.countHi.toNat = 8 * n % 2 ^ 64)
    (length : UInt32) :
    (m.addCount length).countLo.toNat + 2 ^ 32 * (m.addCount length).countHi.toNat =
      8 * (n + length.toNat) % 2 ^ 64 := by
  have hlength := length.toNat_lt
  have hlo := m.countLo.toNat_lt
  have hshift : (length <<< 3).toNat = 8 * length.toNat % 2 ^ 32 := by
    simp [UInt32.toNat_shiftLeft, Nat.shiftLeft_eq, Nat.mul_comm]
  have hhigh : (length >>> 29).toNat = length.toNat / 2 ^ 29 := by
    simp [UInt32.toNat_shiftRight, Nat.shiftRight_eq_div_pow]
  simp only [addCount, UInt32.lt_iff_toNat_lt]
  split
  all_goals
    rename_i hcarry
    simp only [UInt32.toNat_add, hshift, hhigh, UInt32.reduceToNat] at hcarry ⊢
    omega

/-- The bytes of a string are those of every longer one. -/
theorem bytesAt_of_le
    (hdata : data <+: input)
    {i n : Nat}
    (hle : i + n ≤ data.length) :
    bytesAt input i n = some ((data.drop i).take n) := by
  obtain ⟨behind, rfl⟩ := hdata
  rw [bytesAt, if_pos (by simp only [List.length_append]; omega),
    List.drop_append_of_le_length (by omega),
    List.take_append_of_le_length (by simp only [List.length_drop]; omega)]

theorem store_of_le
    (m : MD5)
    {offset : Nat} {bytes : Bytes}
    (hle : offset + bytes.length ≤ blocksize) :
    ∃ m', m.store offset bytes = some m' ∧ m'.buffer = Buffer.overwrite m.buffer offset bytes ∧
      m'.finalized = m.finalized ∧ m'.countLo = m.countLo ∧ m'.countHi = m.countHi ∧
      m'.state = m.state :=
  ⟨_, if_pos hle, rfl, rfl, rfl, rfl, rfl⟩

/-- The buffer up to the end of the bytes that were stored. -/
theorem take_overwrite
    {buffer bytes : Bytes} {offset : Nat}
    (hle : offset + bytes.length ≤ buffer.length) :
    (Buffer.overwrite buffer offset bytes).take (offset + bytes.length) =
      buffer.take offset ++ bytes := by
  rw [Buffer.overwrite, List.take_of_length_le (l := bytes) (by omega)]
  exact List.take_left' (by simp; omega)

/-- The loop takes the whole blocks from its position on, if the sum in its condition does not
wrap. -/
theorem transformBlocks_eq
    (hdata : data <+: input)
    (hlength : length.toNat = data.length)
    (hwrap : data.length < 2 ^ 32 - 64)
    {rounds : Nat} {i : UInt32}
    (hi : i.toNat ≤ data.length)
    (hrounds : (data.length - i.toNat) / 64 < rounds)
    (state : Registers) :
    ∃ j : UInt32, j.toNat ≤ data.length ∧
      transformBlocks input length rounds state i =
        some ((BlockStream.absorb transform blocksize state (data.drop i.toNat)).1, j) ∧
      data.drop j.toNat =
        (BlockStream.absorb transform blocksize state (data.drop i.toNat)).2 := by
  induction rounds generalizing i state with
  | zero =>
      omega
  | succ rounds ih =>
      have hsum : (i + 64).toNat = i.toNat + 64 := by
        simp only [UInt32.toNat_add, UInt32.reduceToNat]
        omega
      by_cases hblock : i.toNat + 64 ≤ data.length
      · have hle : i + 64 ≤ length := by
          rw [UInt32.le_iff_toNat_le, hsum, hlength]
          exact hblock
        obtain ⟨j, hj, heq, hrest⟩ := ih (i := i + 64) (by omega) (by omega)
          (transform state ((data.drop i.toNat).take blocksize))
        have habsorb := BlockStream.absorb_take transform state (n := blocksize)
          (by decide) (show blocksize ≤ (data.drop i.toNat).length by simp [blocksize]; omega)
        rw [hsum, ← List.drop_drop] at heq hrest
        refine ⟨j, hj, ?_, ?_⟩
        · rw [transformBlocks, if_pos hle, bytesAt_of_le (n := blocksize) hdata hblock,
            Option.bind_some, habsorb]
          exact heq
        · rw [habsorb]
          exact hrest
      · have hle : ¬ i + 64 ≤ length := by
          rw [UInt32.le_iff_toNat_le, hsum, hlength]
          exact hblock
        have habsorb := BlockStream.absorb_short transform state (n := blocksize)
          (show (data.drop i.toNat).length < blocksize by simp [blocksize]; omega)
        exact ⟨i, hi, by rw [transformBlocks, if_neg hle, habsorb], by rw [habsorb]⟩

/-- The bytes that wait in the buffer. -/
theorem Absorbs.rest_length
    (_h : Absorbs m message) :
    (absorbed message).2.length = message.length % 64 :=
  BlockStream.absorb_rest_length transform (by decide) initState message

/-- The number of bytes that are missing to a block. -/
theorem Absorbs.firstpart_toNat
    (h : Absorbs m message) :
    (64 - m.index).toNat = 64 - message.length % 64 := by
  have hindex := h.index_toNat
  have hle : m.index ≤ 64 := by
    simp only [UInt32.le_iff_toNat_le, hindex, UInt32.reduceToNat]
    omega
  rw [UInt32.toNat_sub_of_le _ _ hle, hindex]
  rfl

/-- update of less than what is missing to a block. -/
theorem update_short
    (h : Absorbs m message)
    (hdata : data <+: input)
    (hlength : length.toNat = data.length)
    (hshort : message.length % 64 + data.length < 64) :
    ∃ m', m.update input length = some m' ∧ Absorbs m' (message ++ data) := by
  have hindex := h.index_toNat
  have hfirst : ¬ 64 - m.index ≤ length := by
    rw [UInt32.le_iff_toNat_le, h.firstpart_toNat]
    omega
  obtain ⟨m', hstore, hbuffer, hfinalized, hlo, hhi, hstate⟩ :=
    store_of_le (m.addCount length)
      (show m.index.toNat + data.length ≤ blocksize by
        rw [hindex, blocksize]
        omega)
  have habsorbed : absorbed (message ++ data) =
      ((absorbed message).1, (absorbed message).2 ++ data) := by
    rw [absorbed, BlockStream.absorb_append transform (by decide)]
    exact BlockStream.absorb_short transform _ (by
      rw [List.length_append, ← absorbed, h.rest_length]
      exact hshort)
  refine ⟨m', ?_, ?_⟩
  · simp only [update]
    rw [if_neg hfirst, hlength, bytesAt_of_le (i := 0) (n := data.length) hdata (by omega),
      List.drop_zero, List.take_length, Option.bind_some]
    exact hstore
  · refine ⟨hfinalized.trans h.notFinalized, ?_, ?_, ?_⟩
    · rw [hlo, hhi, List.length_append, ← hlength]
      exact addCount_count h.count length
    · rw [hstate, habsorbed]
      exact h.state
    · rw [habsorbed, ← h.buffered, hbuffer, List.length_append, hindex,
        show (message.length + data.length) % 64 = message.length % 64 + data.length by omega]
      exact take_overwrite (by
        rw [show (m.addCount length).buffer.length = 64 from m.sized]
        omega)

/-- update of as much as is missing to a block, or more. -/
theorem update_long
    (h : Absorbs m message)
    (hdata : data <+: input)
    (hlength : length.toNat = data.length)
    (hwrap : data.length < 2 ^ 32 - 64)
    (hlong : 64 ≤ message.length % 64 + data.length) :
    ∃ m', m.update input length = some m' ∧ Absorbs m' (message ++ data) := by
  have hindex := h.index_toNat
  have hfirst := h.firstpart_toNat
  have hle : 64 - m.index ≤ length := by
    rw [UInt32.le_iff_toNat_le, hfirst, hlength]
    omega
  have hpart : (data.take (64 - message.length % 64)).length = 64 - message.length % 64 :=
    List.length_take_of_le (by omega)
  -- The buffer is filled up and transformed.
  obtain ⟨m₁, hstore₁, hbuffer₁, hfinalized₁, hlo₁, hhi₁, hstate₁⟩ :=
    store_of_le (m.addCount length)
      (show m.index.toNat + (data.take (64 - message.length % 64)).length ≤ blocksize by
        rw [hindex, hpart, blocksize]
        omega)
  have hfull : m₁.buffer = (absorbed message).2 ++ data.take (64 - message.length % 64) := by
    have htake := take_overwrite
      (show message.length % 64 + (data.take (64 - message.length % 64)).length ≤ m.buffer.length by
        rw [hpart, m.sized]
        omega)
    rw [h.buffered, hpart, show message.length % 64 + (64 - message.length % 64) = 64 by omega,
      List.take_of_length_le (by rw [Buffer.overwrite_length, m.sized])] at htake
    rw [hbuffer₁, hindex]
    exact htake
  have hfulled : m₁.buffer.length = blocksize := m₁.sized
  -- The whole blocks behind it are transformed in place.
  obtain ⟨j, hj, hloop, hrest⟩ := transformBlocks_eq hdata hlength hwrap (i := 64 - m.index)
    (by rw [hfirst]; omega) (show _ < 2 ^ 26 by omega) (transform m₁.state m₁.buffer)
  have habsorbed : absorbed (message ++ data) =
      BlockStream.absorb transform blocksize (transform m₁.state m₁.buffer)
        (data.drop (64 - m.index).toNat) := by
    rw [absorbed, BlockStream.absorb_append transform (by decide), hfirst, ← absorbed,
      ← BlockStream.absorb_block transform _ (by decide) hfulled, hfull, List.append_assoc,
      List.take_append_drop, hstate₁]
    rw [show (m.addCount length).state = m.state from rfl, h.state]
  rw [← habsorbed] at hloop hrest
  have hrestLength : (absorbed (message ++ data)).2.length = (message ++ data).length % 64 :=
    BlockStream.absorb_rest_length transform (by decide) initState _
  have hsub : (length - j).toNat = data.length - j.toNat := by
    rw [UInt32.toNat_sub_of_le _ _ (by rw [UInt32.le_iff_toNat_le, hlength]; exact hj), hlength]
  -- What is left goes to the front of the buffer.
  obtain ⟨m', hstore, hbuffer, hfinalized, hlo, hhi, hstate⟩ :=
    store_of_le { m₁ with state := (absorbed (message ++ data)).1 }
      (show 0 + (absorbed (message ++ data)).2.length ≤ blocksize by
        rw [hrestLength, blocksize]
        omega)
  refine ⟨m', ?_, ?_⟩
  · simp only [update]
    rw [if_pos hle, hfirst, bytesAt_of_le (i := 0) hdata (by omega), List.drop_zero,
      Option.bind_some, hstore₁, Option.bind_some, hloop, Option.bind_some]
    show (bytesAt input j.toNat (length - j).toNat).bind _ = some m'
    rw [hsub, bytesAt_of_le hdata (by omega), Option.bind_some,
      List.take_of_length_le (by rw [List.length_drop]), hrest]
    exact hstore
  · refine ⟨?_, ?_, hstate, ?_⟩
    · rw [hfinalized]
      exact hfinalized₁.trans h.notFinalized
    · rw [hlo, hhi, List.length_append, ← hlength]
      show m₁.countLo.toNat + 2 ^ 32 * m₁.countHi.toNat = _
      rw [hlo₁, hhi₁]
      exact addCount_count h.count length
    · rw [hbuffer, ← hrestLength]
      refine Buffer.take_overwrite ?_
      rw [hrestLength, m₁.sized]
      omega

/-- update absorbs its input behind what was absorbed before. -/
theorem update_absorbs
    (h : Absorbs m message)
    (hdata : data <+: input)
    (hlength : length.toNat = data.length)
    (hwrap : data.length < 2 ^ 32 - 64) :
    ∃ m', m.update input length = some m' ∧ Absorbs m' (message ++ data) := by
  rcases Nat.lt_or_ge (message.length % 64 + data.length) 64 with hshort | hlong
  · exact update_short h hdata hlength hshort
  · exact update_long h hdata hlength hwrap hlong

end Update

section Finalize

variable {m : MD5} {message : Bytes}

/-- encode writes a word with its least byte first. -/
theorem encodeWord_eq
    (w : UInt32) :
    encodeWord w = LittleEndian.encode 4 w.toNat := by
  have hbyte : ∀ v : UInt32, (v &&& 0xff).toUInt8 = UInt8.ofNat v.toNat := by
    intro v
    apply UInt8.toNat.inj
    have hmask := Nat.and_two_pow_sub_one_eq_mod (v.toNat % 256) 8
    simpa using hmask
  simp only [encodeWord, hbyte, LittleEndian.encode]
  simp [UInt32.toNat_shiftRight, Nat.shiftRight_eq_div_pow, Nat.div_div_eq_div_mul]

theorem encode_length
    (words : List UInt32) :
    (encode words).length = 4 * words.length := by
  induction words with
  | nil =>
      rfl
  | cons w words ih =>
      simp only [encode, List.flatMap_cons, List.length_append] at ih ⊢
      rw [ih, encodeWord_eq, LittleEndian.encode_length, List.length_cons]
      omega

/-- The number of bits, as finalize appends it. -/
theorem Absorbs.encode_count
    (h : Absorbs m message) :
    encode [m.countLo, m.countHi] = LittleEndian.encode 8 (8 * message.length) := by
  have hlo : m.countLo.toNat < 256 ^ 4 := m.countLo.toNat_lt
  have hcount : m.countLo.toNat + 256 ^ 4 * m.countHi.toNat = 8 * message.length % 256 ^ 8 :=
    h.count
  have hwords : encode [m.countLo, m.countHi] = encodeWord m.countLo ++ encodeWord m.countHi := by
    simp [encode]
  rw [hwords, encodeWord_eq, encodeWord_eq, LittleEndian.encode_append 4 4 hlo, hcount]
  exact LittleEndian.encode_mod 8 _

/-- finalize pads the message and writes the digest out. -/
theorem finalize_absorbs
    (h : Absorbs m message) :
    ∃ m', m.finalize = some m' ∧ m'.finalized = true ∧ m'.digest = digestOf message := by
  have hindex : (m.countLo / 8 % 64).toNat = message.length % 64 := h.index_toNat
  let zeros := (119 - message.length % 64) % 64
  have hpadding : (0x80 :: List.replicate zeros 0) <+: padding := by
    have hzeros : zeros ≤ 63 := by omega
    refine ⟨List.replicate (63 - zeros) 0, ?_⟩
    rw [List.cons_append, ← List.replicate_add, Nat.add_sub_cancel' hzeros, padding]
  have hpadLen : (if m.countLo / 8 % 64 < 56 then 56 - m.countLo / 8 % 64
      else 120 - m.countLo / 8 % 64).toNat = (0x80 :: List.replicate zeros (0 : UInt8)).length := by
    have hsub : ∀ n : UInt32, m.countLo / 8 % 64 ≤ n →
        (n - m.countLo / 8 % 64).toNat = n.toNat - message.length % 64 := by
      intro n hn
      rw [UInt32.toNat_sub_of_le _ _ hn, hindex]
    rw [List.length_cons, List.length_replicate]
    split
    · rename_i hlt
      rw [UInt32.lt_iff_toNat_lt, hindex] at hlt
      rw [hsub 56 (by rw [UInt32.le_iff_toNat_le, hindex]; exact Nat.le_of_lt hlt)]
      simp only [zeros, UInt32.reduceToNat] at hlt ⊢
      omega
    · rename_i hge
      rw [UInt32.lt_iff_toNat_lt, hindex] at hge
      rw [hsub 120 (by simp only [UInt32.le_iff_toNat_le, hindex, UInt32.reduceToNat]; omega)]
      simp only [zeros, UInt32.reduceToNat] at hge ⊢
      omega
  obtain ⟨m₁, hpad, h₁⟩ := update_absorbs h hpadding hpadLen (by
    rw [List.length_cons, List.length_replicate]
    omega)
  obtain ⟨m₂, hbits, h₂⟩ := update_absorbs h₁
    (List.prefix_refl (encode [m.countLo, m.countHi]))
    (show (8 : UInt32).toNat = _ by rw [encode_length]; rfl)
    (by rw [encode_length]; simp)
  simp only [finalize, h.notFinalized, Bool.false_eq_true, if_false, hpad, Option.bind_some,
    hbits, Option.map_some]
  refine ⟨_, rfl, rfl, ?_⟩
  show encode [m₂.state.a, m₂.state.b, m₂.state.c, m₂.state.d] = digestOf message
  rw [h₂.state, h.encode_count]
  rfl

end Finalize

section Digest

/-- The updates absorb the pieces one after the other. -/
theorem updates_absorbs
    {m : MD5} {message : Bytes}
    (h : Absorbs m message)
    {pieces : List Bytes}
    (hpieces : ∀ piece ∈ pieces, piece.length < 2 ^ 32 - 64) :
    ∃ m', m.updates pieces = some m' ∧ Absorbs m' (message ++ pieces.flatten) := by
  induction pieces generalizing m message with
  | nil =>
      exact ⟨m, rfl, by rw [List.flatten_nil, List.append_nil]; exact h⟩
  | cons piece pieces ih =>
      have hpiece := hpieces piece (by simp)
      obtain ⟨m₁, hupdate, h₁⟩ := update_absorbs h
        (List.prefix_refl piece) (UInt32.toNat_ofNat_of_lt' (by rw [UInt32.size]; omega)) hpiece
      obtain ⟨m₂, hupdates, h₂⟩ := ih h₁ (fun p hp => hpieces p (by simp [hp]))
      refine ⟨m₂, ?_, ?_⟩
      · rw [updates, List.foldlM_cons, hupdate]
        exact hupdates
      · rw [List.flatten_cons, ← List.append_assoc]
        exact h₂

/-- What is printed behind finalize. -/
theorem finalize_hexdigest
    {m : MD5} {message : Bytes}
    (h : Absorbs m message) :
    m.finalize.map hexdigest = some ((digestOf message).flatMap hexByte) := by
  obtain ⟨m', hfinalize, hfinalized, hdigest⟩ := finalize_absorbs h
  rw [hfinalize, Option.map_some, hexdigest, if_pos hfinalized, hdigest]

/-- The digest of a text is that of one update. -/
theorem md5_eq
    (m : MD5)
    {text : Bytes}
    (htext : text.length < 2 ^ 32 - 64) :
    md5 m text = some ((digestOf text).flatMap hexByte) := by
  obtain ⟨m', hupdate, h⟩ := update_absorbs (init_absorbs m) (List.prefix_refl text)
    (UInt32.toNat_ofNat_of_lt' (by rw [UInt32.size]; omega)) htext
  rw [md5, hupdate, Option.bind_some]
  exact finalize_hexdigest h

/-- However a message is cut into pieces of less than 2^32 - 64 bytes, the digest that is printed
behind finalize is that of the message, whatever the memory of the object was before. It is the
digest of all blocks of the padded message, and that of md5. -/
theorem hexdigest_of_updates
    (m : MD5)
    (pieces : List Bytes)
    (hpieces : ∀ piece ∈ pieces, piece.length < 2 ^ 32 - 64) :
    ((m.init.updates pieces).bind finalize).map hexdigest =
        some ((digestOf pieces.flatten).flatMap hexByte) ∧
      (absorbed (padded pieces.flatten)).2 = [] ∧
      ∀ text ∈ pieces, md5 m text = some ((digestOf text).flatMap hexByte) := by
  obtain ⟨m', hupdates, h⟩ := updates_absorbs (init_absorbs m) hpieces
  refine ⟨?_, absorbed_padded pieces.flatten, fun text htext => md5_eq m (hpieces text htext)⟩
  rw [hupdates, Option.bind_some]
  exact finalize_hexdigest h

/-- An object whose memory is zero. -/
def blank : MD5 where
  finalized := false
  buffer := List.replicate 64 0
  countLo := 0
  countHi := 0
  state := { a := 0, b := 0, c := 0, d := 0 }
  digest := []
  sized := by simp

/-- The digest of "abc". -/
theorem hexdigest_of_abc :
    some ((digestOf [0x61, 0x62, 0x63]).flatMap hexByte) =
      some "900150983cd24fb0d6963f7d28e17f72".toList :=
  (hexdigest_of_updates blank [[0x61], [0x62, 0x63]] (by decide)).1.symm.trans
    (by decide +kernel)

end Digest

end MD5
end Gamnet
