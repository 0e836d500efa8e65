import Fortuna.Bytes

/-!
# Block counters

A counter is a byte string of fixed width, read as a number with its least
significant byte first.  It steps by one with carry and wraps around to zero.
The width never changes.
-/

namespace Fortuna

structure Counter where
  /-- The bytes, least significant byte first. -/
  bytes : Bytes
  deriving DecidableEq

/-- One more, with carry from each byte to the next; the last carry is lost. -/
def Bytes.increment : Bytes → Bytes
  | [] => []
  | b :: bs => if b + 1 = 0 then 0 :: Bytes.increment bs else (b + 1) :: bs

namespace Counter

/-- The counter of the given width that stands at zero. -/
def zero (width : Nat) : Counter :=
  ⟨List.replicate width 0⟩

/-- The counter of the given width that stands at `n`, modulo `256 ^ width`. -/
def ofNat (width n : Nat) : Counter :=
  ⟨Bytes.ofNatLE width n⟩

def width (c : Counter) : Nat :=
  c.bytes.length

def value (c : Counter) : Nat :=
  Bytes.toNatLE c.bytes

def isZero (c : Counter) : Bool :=
  c.bytes.all (· == 0)

def next (c : Counter) : Counter :=
  ⟨c.bytes.increment⟩

def advance (c : Counter) : Nat → Counter
  | 0 => c
  | k + 1 => c.next.advance k

/-- The counter and the `k - 1` counters after it. -/
def upcoming (c : Counter) : Nat → List Counter
  | 0 => []
  | k + 1 => c :: c.next.upcoming k

/-- Adds the next `k` counters to those passed (latest first), and steps over
them. -/
def pass (c : Counter) (passed : List Counter) : Nat → List Counter × Counter
  | 0 => (passed.reverse, c)
  | k + 1 => c.next.pass (c :: passed) k

/-- The next `k` counters and the counter after them. -/
def draw (c : Counter) (k : Nat) : List Counter × Counter :=
  c.pass [] k

theorem pass_eq (c : Counter) (passed : List Counter) (k : Nat) :
    c.pass passed k = (passed.reverse ++ c.upcoming k, c.advance k) := by
  induction k generalizing c passed with
  | zero => simp [pass, upcoming, advance]
  | succ k ih => simp [pass, upcoming, advance, ih]

theorem draw_eq (c : Counter) (k : Nat) :
    c.draw k = (c.upcoming k, c.advance k) := by
  simp [draw, pass_eq]

@[simp] theorem width_zero (width : Nat) : (zero width).width = width :=
  List.length_replicate

@[simp] theorem length_increment (bs : Bytes) :
    bs.increment.length = bs.length := by
  induction bs with
  | nil => rfl
  | cons b bs ih => rw [Bytes.increment]; split <;> simp [ih]

@[simp] theorem width_next (c : Counter) : c.next.width = c.width :=
  length_increment c.bytes

@[simp] theorem width_advance (c : Counter) (k : Nat) :
    (c.advance k).width = c.width := by
  induction k generalizing c with
  | zero => rfl
  | succ k ih => rw [advance, ih, width_next]

@[simp] theorem length_upcoming (c : Counter) (k : Nat) :
    (c.upcoming k).length = k := by
  induction k generalizing c with
  | zero => rfl
  | succ k ih => simp [upcoming, ih]

end Counter

end Fortuna
