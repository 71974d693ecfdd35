import Mathlib.Data.Nat.Bitwise
import MKart.Server.Replies

/-!
# The pins

The server reaches the pins of the board through the library `pigpio`, of which it uses the
functions in `Pigpio`.  The library is not part of the server: `Documented` states what its
documentation says of the first bank, and `Latches` are pins that behave so.
-/

namespace MKart.Server

open MKart.Server.Replies (nextCall)

inductive Mode
  | input
  | output
  | alt0
  deriving DecidableEq, Repr

/-- The functions of the library, on the state `P` of the pins. -/
structure Pigpio (P : Type) where
  setMode (gpio : ℤ) (mode : Mode) : P → P
  hardwareClock (gpio : UInt8) (freq : UInt32) : P → P
  writeBits_0_31_Clear (bits : UInt32) : P → P
  writeBits_0_31_Set (bits : UInt32) : P → P
  writeBits_32_53_Clear (bits : UInt32) : P → P
  writeBits_32_53_Set (bits : UInt32) : P → P
  readBits_0_31 : P → UInt32
  readBits_32_53 : P → UInt32
  /-- The levels that the pins are given from outside. -/
  outside (levels : ℕ → Bool) : P → P

variable {P : Type}

/-- Which pins are outputs, and their levels. -/
structure Levels (P : Type) where
  isOutput : P → ℕ → Prop
  level : P → ℕ → Bool

/-- The output `n` stays one, and keeps its level. -/
def Levels.Keeps (v : Levels P) (n : ℕ) (p q : P) : Prop :=
  v.isOutput p n → v.isOutput q n ∧ v.level q n = v.level p n

/-- What is documented of the functions, for the pins of the first bank. -/
structure Documented (g : Pigpio P) (v : Levels P) : Prop where
  read : ∀ p n, n < 32 → (g.readBits_0_31 p).toNat.testBit n = v.level p n
  output : ∀ p (n : ℕ), n < 32 → v.isOutput (g.setMode n .output p) n
  mode : ∀ p (n : ℕ) gpio mode, (gpio ≠ n ∨ mode = .output) → v.Keeps n p (g.setMode gpio mode p)
  clear : ∀ p n bits, n < 32 → v.isOutput p n →
    v.isOutput (g.writeBits_0_31_Clear bits p) n ∧
      v.level (g.writeBits_0_31_Clear bits p) n = (v.level p n && !bits.toNat.testBit n)
  set : ∀ p n bits, n < 32 → v.isOutput p n →
    v.isOutput (g.writeBits_0_31_Set bits p) n ∧
      v.level (g.writeBits_0_31_Set bits p) n = (v.level p n || bits.toNat.testBit n)
  outside : ∀ p n levels, v.Keeps n p (g.outside levels p)

/-- What a call of a script does to the pins. -/
def Pigpio.call (g : Pigpio P) (c : ScriptCall) (p : P) : P :=
  match c with
  | .gpioPinModeIn gpio => g.setMode gpio .input p
  | .gpioPinModeOut gpio => g.setMode gpio .output p
  | .gpioPinModeClock gpio freq => g.hardwareClock gpio freq (g.setMode gpio.toNat .alt0 p)
  | .gpioSet_0_31_Low bitmask => g.writeBits_0_31_Clear bitmask p
  | .gpioSet_0_31_High bitmask => g.writeBits_0_31_Set bitmask p
  | .gpioSet_32_53_Low bitmask => g.writeBits_32_53_Clear bitmask p
  | .gpioSet_32_53_High bitmask => g.writeBits_32_53_Set bitmask p
  | _ => p

/-- What the next call of a script reads. -/
def Pigpio.read (g : Pigpio P) (s : RpiServer) (p : P) : UInt32 :=
  match nextCall s with
  | some .gpioGet_32_53 => g.readBits_32_53 p
  | _ => g.readBits_0_31 p

/-! ### Pins with latches -/

/-- Pins with a latch each: the level of an output is that of its latch, that of any other pin
comes from outside. -/
structure Latches where
  mode : ℕ → Mode
  latch : ℕ → Bool
  line : ℕ → Bool

namespace Latches

def level (p : Latches) (n : ℕ) : Bool := if p.mode n = .output then p.latch n else p.line n

/-- The bits of a bank of `count` pins, of which the first is `base`. -/
def readBits (base count : ℕ) (p : Latches) : UInt32 :=
  UInt32.ofNat (Nat.ofBits fun i : Fin count => p.level (base + i))

def writeBits (base count : ℕ) (high : Bool) (bits : UInt32) (p : Latches) : Latches :=
  { p with
    latch := fun n =>
      if base ≤ n ∧ n < base + count ∧ bits.toNat.testBit (n - base) = true then high
      else p.latch n }

def setMode (gpio : ℤ) (mode : Mode) (p : Latches) : Latches :=
  { p with mode := fun n => if n = gpio then mode else p.mode n }

def pigpio : Pigpio Latches where
  setMode := setMode
  hardwareClock _ _ p := p
  writeBits_0_31_Clear := writeBits 0 32 false
  writeBits_0_31_Set := writeBits 0 32 true
  writeBits_32_53_Clear := writeBits 32 22 false
  writeBits_32_53_Set := writeBits 32 22 true
  readBits_0_31 := readBits 0 32
  readBits_32_53 := readBits 32 22
  outside levels p := { p with line := levels }

def levels : Levels Latches where
  isOutput p n := p.mode n = .output
  level := level

/-- All pins are inputs, and low. -/
def low : Latches := ⟨fun _ => .input, fun _ => false, fun _ => false⟩

theorem documented : Documented pigpio levels where
  read p n hn := by
    show (UInt32.ofNat (Nat.ofBits fun i : Fin 32 => p.level (0 + i))).toNat.testBit n = p.level n
    have hlt : (Nat.ofBits fun i : Fin 32 => p.level (0 + i)) < 2 ^ 32 := Nat.ofBits_lt_two_pow _
    rw [UInt32.toNat_ofNat_of_lt' hlt, Nat.testBit_ofBits_lt _ _ hn, Nat.zero_add]
  output p n _ := if_pos rfl
  mode p n gpio mode h hout := by
    have hout : p.mode n = .output := hout
    have hmode : (setMode gpio mode p).mode n = .output := by
      show (if (n : ℤ) = gpio then mode else p.mode n) = .output
      split
      · rename_i heq
        exact h.resolve_left fun hne => hne (by exact_mod_cast heq.symm)
      · exact hout
    refine ⟨hmode, ?_⟩
    show (setMode gpio mode p).level n = p.level n
    unfold level
    rw [if_pos hmode, if_pos hout]
    rfl
  clear p n bits hn hout := by
    have hout : p.mode n = .output := hout
    refine ⟨hout, ?_⟩
    show (if p.mode n = .output then _ else _) = ((if p.mode n = .output then _ else _) && _)
    rw [if_pos hout, if_pos hout]
    show (if 0 ≤ n ∧ n < 0 + 32 ∧ bits.toNat.testBit n = true then false else p.latch n) = _
    cases bits.toNat.testBit n <;> simp [hn]
  set p n bits hn hout := by
    have hout : p.mode n = .output := hout
    refine ⟨hout, ?_⟩
    show (if p.mode n = .output then _ else _) = ((if p.mode n = .output then _ else _) || _)
    rw [if_pos hout, if_pos hout]
    show (if 0 ≤ n ∧ n < 0 + 32 ∧ bits.toNat.testBit n = true then true else p.latch n) = _
    cases bits.toNat.testBit n <;> simp [hn]
  outside p n levels hout := by
    have hout : p.mode n = .output := hout
    refine ⟨hout, ?_⟩
    show (if p.mode n = .output then _ else _) = if p.mode n = .output then _ else _
    rw [if_pos hout, if_pos hout]
    rfl

end Latches

end MKart.Server
