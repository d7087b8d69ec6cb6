import MiningAgent.Generator
import Mathlib.Algebra.Group.Nat.Defs
import Mathlib.Data.List.Basic
import Mathlib.Logic.Function.Iterate

/-!
# Bytes of a stream

Bytes are drawn eight at a time, with a rest that is treated on its own.  Whatever their
number, they are the first bytes of one and the same row: the words of the stream one after
the other, each with its least significant byte first.
-/

namespace MiningAgent.Generator

@[simp] theorem length_littleEndian (count number : Nat) :
    (littleEndian count number).length = count := by
  induction count generalizing number with
  | zero => rfl
  | succ count hypothesis => simp [littleEndian, hypothesis]

theorem littleEndian_add (first second number : Nat) :
    littleEndian (first + second) number =
      littleEndian first number ++ littleEndian second (number / 256 ^ first) := by
  induction first generalizing number with
  | zero => simp [littleEndian]
  | succ first hypothesis =>
      rw [Nat.succ_add, littleEndian, hypothesis, Nat.div_div_eq_div_mul, ← Nat.pow_succ']
      rfl

/-- What stands above the bytes does not matter. -/
theorem littleEndian_add_mul (count number above : Nat) :
    littleEndian count (number + 256 ^ count * above) = littleEndian count number := by
  induction count generalizing number with
  | zero => rfl
  | succ count hypothesis =>
      have lowest : (number + 256 ^ (count + 1) * above) % 256 = number % 256 := by
        rw [Nat.pow_succ', Nat.mul_assoc, Nat.add_mul_mod_self_left]
      have others : (number + 256 ^ (count + 1) * above) / 256 =
          number / 256 + 256 ^ count * above := by
        rw [Nat.pow_succ', Nat.mul_assoc, Nat.add_mul_div_left _ _ (by omega)]
      rw [littleEndian, lowest, others, hypothesis, littleEndian]

theorem take_littleEndian {count width : Nat} (narrower : count ≤ width) (number : Nat) :
    (littleEndian width number).take count = littleEndian count number := by
  have whole : width = count + (width - count) := by omega
  rw [whole, littleEndian_add, List.take_left' (length_littleEndian count number)]

/-- Some words, one draw after the other. -/
def drawWords : Nat → Generator → List UInt32 × Generator
  | 0, stream => ([], stream)
  | count + 1, stream =>
      let (word, afterWord) := stream.drawWord
      let (words, afterWords) := drawWords count afterWord
      (word :: words, afterWords)

/-- The bytes of some words, each with its least significant byte first. -/
def bytesOfWords (words : List UInt32) : List UInt8 :=
  words.flatMap fun word => littleEndian 4 word.toNat

theorem drawWords_succ (count : Nat) (stream : Generator) :
    drawWords (count + 1) stream =
      (stream.drawWord.1 :: (drawWords count stream.next).1, (drawWords count stream.next).2) :=
  rfl

theorem drawWords_add (first second : Nat) (stream : Generator) :
    drawWords (first + second) stream =
      ((drawWords first stream).1 ++ (drawWords second (drawWords first stream).2).1,
        (drawWords second (drawWords first stream).2).2) := by
  induction first generalizing stream with
  | zero => simp [drawWords]
  | succ first hypothesis =>
      rw [Nat.succ_add, drawWords_succ, drawWords_succ, hypothesis]
      rfl

@[simp] theorem length_drawWords (count : Nat) (stream : Generator) :
    (drawWords count stream).1.length = count := by
  induction count generalizing stream with
  | zero => rfl
  | succ count hypothesis => simp [drawWords_succ, hypothesis]

theorem drawWords_snd (count : Nat) (stream : Generator) :
    (drawWords count stream).2 = next^[count] stream := by
  induction count generalizing stream with
  | zero => rfl
  | succ count hypothesis => rw [drawWords_succ, hypothesis, Function.iterate_succ_apply]

theorem bytesOfWords_append (first second : List UInt32) :
    bytesOfWords (first ++ second) = bytesOfWords first ++ bytesOfWords second :=
  List.flatMap_append

@[simp] theorem length_bytesOfWords (words : List UInt32) :
    (bytesOfWords words).length = 4 * words.length := by
  induction words with
  | nil => rfl
  | cons word rest hypothesis =>
      have split : bytesOfWords (word :: rest) = littleEndian 4 word.toNat ++ bytesOfWords rest :=
        rfl
      rw [split, List.length_append, hypothesis, length_littleEndian, List.length_cons]
      omega

theorem drawLong_toNat (stream : Generator) :
    stream.drawLong.1.toNat =
      stream.drawWord.1.toNat + 2 ^ 32 * stream.drawWord.2.drawWord.1.toNat := by
  have bound := stream.drawWord.1.toNat_lt
  have highBound := stream.drawWord.2.drawWord.1.toNat_lt
  have shifted : (stream.drawWord.2.drawWord.1.toUInt64 <<< 32).toNat =
      2 ^ 32 * stream.drawWord.2.drawWord.1.toNat := by
    have amount : (32 : UInt64).toNat % 64 = 32 := by decide
    rw [UInt64.toNat_shiftLeft, amount, UInt32.toNat_toUInt64, Nat.shiftLeft_eq, Nat.mul_comm]
    exact Nat.mod_eq_of_lt (by omega)
  have joined : stream.drawLong.1 =
      (stream.drawWord.2.drawWord.1.toUInt64 <<< 32) ||| stream.drawWord.1.toUInt64 := rfl
  rw [joined, UInt64.toNat_or, shifted, UInt32.toNat_toUInt64,
    ← Nat.two_pow_add_eq_or_of_lt bound]
  omega

theorem littleEndian_drawLong (stream : Generator) :
    littleEndian 8 stream.drawLong.1.toNat = bytesOfWords (drawWords 2 stream).1 := by
  have bound := stream.drawWord.1.toNat_lt
  have high : stream.drawLong.1.toNat / 256 ^ 4 = stream.drawWord.2.drawWord.1.toNat := by
    rw [drawLong_toNat]
    omega
  have low : littleEndian 4 stream.drawLong.1.toNat = littleEndian 4 stream.drawWord.1.toNat := by
    rw [drawLong_toNat]
    exact littleEndian_add_mul 4 _ _
  calc littleEndian 8 stream.drawLong.1.toNat
    _ = littleEndian 4 stream.drawLong.1.toNat ++
          littleEndian 4 (stream.drawLong.1.toNat / 256 ^ 4) := littleEndian_add 4 4 _
    _ = bytesOfWords (drawWords 2 stream).1 := by
        rw [low, high]
        simp [bytesOfWords, drawWords]

/-- As many words as have at least `count` bytes. -/
def wordsFor (count : Nat) : Nat := (count + 3) / 4

theorem le_wordsFor (count : Nat) : count ≤ 4 * wordsFor count := by
  rw [wordsFor]
  omega

/-- More words than needed do not change the first bytes. -/
theorem take_bytesOfWords {count words : Nat} (enough : count ≤ 4 * words) (more : Nat)
    (stream : Generator) :
    (bytesOfWords (drawWords (words + more) stream).1).take count =
      (bytesOfWords (drawWords words stream).1).take count := by
  have length : (bytesOfWords (drawWords words stream).1).length = 4 * words := by simp
  rw [drawWords_add, bytesOfWords_append, List.take_append_of_le_length (by omega)]

/-- Two words more are the bytes of a long word more. -/
theorem take_bytesOfWords_two (count words : Nat) (stream : Generator) :
    (bytesOfWords (drawWords (2 + words) stream).1).take (8 + count) =
      littleEndian 8 stream.drawLong.1.toNat ++
        (bytesOfWords (drawWords words stream.drawLong.2).1).take count := by
  have rest : (drawWords 2 stream).2 = stream.drawLong.2 := rfl
  rw [drawWords_add, bytesOfWords_append, ← littleEndian_drawLong, rest,
    List.take_append, length_littleEndian, List.take_of_length_le (by simp)]
  simp

theorem drawBytes_eq (count : Nat) (stream : Generator) :
    drawBytes count stream =
      ((bytesOfWords (drawWords (wordsFor count) stream).1).take count,
        (drawWords (wordsFor count) stream).2) := by
  fun_induction drawBytes count stream with
  | case1 => rfl
  | case2 count stream long afterLong drawn bytes rest read hypothesis =>
      obtain ⟨rfl, rfl⟩ := Prod.mk.inj drawn
      obtain ⟨rfl, rfl⟩ := Prod.mk.inj (read.symm.trans hypothesis)
      have words : wordsFor (8 + count) = 2 + wordsFor count := by
        rw [wordsFor, wordsFor]
        omega
      have all : count.succ.succ.succ.succ.succ.succ.succ.succ = 8 + count := by omega
      rw [all, words, take_bytesOfWords_two, drawWords_add]
      rfl
  | case3 count stream short more long afterLong drawn =>
      obtain ⟨rfl, rfl⟩ := Prod.mk.inj drawn
      have within : count + 1 < 8 := by
        by_contra beyond
        exact short (count - 7) (by omega)
      have words : wordsFor (count + 1) = 2 := by
        rw [wordsFor]
        omega
      rw [Nat.succ_eq_add_one, words, ← littleEndian_drawLong, take_littleEndian (by omega)]
      rfl
  | case4 count stream short few word afterWord drawn =>
      obtain ⟨rfl, rfl⟩ := Prod.mk.inj drawn
      have words : wordsFor (count + 1) = 1 := by
        rw [wordsFor]
        omega
      have single :
          bytesOfWords (drawWords 1 stream).1 = littleEndian 4 stream.drawWord.1.toNat := by
        simp [bytesOfWords, drawWords]
      rw [Nat.succ_eq_add_one, words, single, take_littleEndian (by omega)]
      rfl

/-- Bytes drawn in two goes are those drawn in one, unless the first go leaves a part of a
word behind. -/
theorem drawBytes_add {first : Nat} (whole : 4 ∣ first) (second : Nat) (stream : Generator) :
    drawBytes (first + second) stream =
      ((drawBytes first stream).1 ++ (drawBytes second (drawBytes first stream).2).1,
        (drawBytes second (drawBytes first stream).2).2) := by
  obtain ⟨words, rfl⟩ := whole
  have front : wordsFor (4 * words) = words := by
    rw [wordsFor]
    omega
  have all : wordsFor (4 * words + second) = words + wordsFor second := by
    rw [wordsFor, wordsFor]
    omega
  have length : (bytesOfWords (drawWords words stream).1).length = 4 * words := by simp
  have kept : ∀ taken, 4 * words ≤ taken →
      (bytesOfWords (drawWords words stream).1).take taken =
        bytesOfWords (drawWords words stream).1 :=
    fun taken beyond => List.take_of_length_le (by omega)
  simp only [drawBytes_eq, front, all, drawWords_add, bytesOfWords_append, List.take_append,
    length, kept _ (Nat.le_add_right _ _), kept _ (Nat.le_refl _), Nat.add_sub_cancel_left]

/-- Bytes are the first ones of all the words of a stream, whatever their number, and take as
many draws as there are words that they touch.  No draw of bytes fails.  A long word is two
words, the first in its low half.  So it makes no difference where a draw of bytes is
interrupted, as long as that is between two words. -/
theorem bytes_follow_words (stream : Generator) :
    (∀ count words, count ≤ 4 * words →
        (drawBytes count stream).1 = (bytesOfWords (drawWords words stream).1).take count) ∧
      (∀ count, (drawBytes count stream).1.length = count ∧
        (drawBytes count stream).2 = next^[(count + 3) / 4] stream) ∧
      (∀ (Failure : Type) (count : Nat),
        (tryDrawBytes count stream : Except Failure (List UInt8) × Generator) =
          (.ok (drawBytes count stream).1, (drawBytes count stream).2)) ∧
      stream.drawLong.1.toNat =
        stream.drawWord.1.toNat + 2 ^ 32 * stream.drawWord.2.drawWord.1.toNat ∧
      stream.drawLong.2 = stream.drawWord.2.drawWord.2 ∧
      ∀ first second, 4 ∣ first →
        drawBytes (first + second) stream =
          ((drawBytes first stream).1 ++ (drawBytes second (drawBytes first stream).2).1,
            (drawBytes second (drawBytes first stream).2).2) := by
  refine ⟨?_, ?_, fun _ _ => rfl, drawLong_toNat stream, rfl, ?_⟩
  · intro count words enough
    have least : words = wordsFor count + (words - wordsFor count) := by
      rw [wordsFor]
      omega
    rw [drawBytes_eq, least, take_bytesOfWords (le_wordsFor count)]
  · intro count
    rw [drawBytes_eq]
    refine ⟨?_, drawWords_snd _ _⟩
    rw [List.length_take, length_bytesOfWords, length_drawWords,
      Nat.min_eq_left (le_wordsFor count)]
  · intro first second whole
    exact drawBytes_add whole second stream

/-- Five bytes behind twelve: the first go ends with a single word, and the rest of the
second begins one more. -/
theorem seventeen_bytes_in_two_goes :
    4 ∣ 12 ∧ 17 ≤ 4 * 5 ∧
      (drawBytes 12 (ofSeed 0)).1 = [220, 98, 187, 43, 129, 147, 249, 191, 21, 208, 171, 24] ∧
      (drawBytes 17 (ofSeed 0)).1 =
        (bytesOfWords (drawWords 5 (ofSeed 0)).1).take 17 ∧
      (drawBytes 17 (ofSeed 0)).1 = (drawBytes 12 (ofSeed 0)).1 ++
        (drawBytes 5 (drawBytes 12 (ofSeed 0)).2).1 :=
  ⟨by decide, by decide, by decide, (bytes_follow_words (ofSeed 0)).1 17 5 (by decide),
    congrArg Prod.fst ((bytes_follow_words (ofSeed 0)).2.2.2.2.2 12 5 (by decide))⟩

end MiningAgent.Generator
