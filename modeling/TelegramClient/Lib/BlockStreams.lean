import TelegramClient.Lib.BlockModes

/-!
# Block data piece by piece

A mode that chains blocks may be run over a piece at a time, if each piece begins with what the last one has left.

* `igeEncrypt_append`, `igeDecrypt_append` : **the modes over two pieces**;
* `runPieces` : a function over the pieces of a stream; `runPieces_eq` : **where it may be cut once it may be cut anywhere**.
-/

namespace TelegramClient
open List

variable {n : Nat}

/-! ## Pieces -/

variable (bs : List (Block n))

theorem ofBlocks_append (cs : List (Block n)) : ofBlocks (bs ++ cs) = ofBlocks bs ++ ofBlocks cs := by
  simp [ofBlocks]

variable (m : Nat)

theorem ofBlocks_drop : ofBlocks (bs.drop m) = (ofBlocks bs).drop (n * m) := by
  by_cases hm : m ≤ bs.length
  · have hsplit := congrArg ofBlocks (take_append_drop m bs)
    rw [ofBlocks_append] at hsplit
    rw [← hsplit, drop_left']
    rw [length_ofBlocks, length_take, Nat.min_eq_left hm]
  · rw [drop_of_length_le (by omega), drop_of_length_le]
    · rfl
    · rw [length_ofBlocks]
      exact Nat.mul_le_mul_left n (by omega)

theorem ofBlocks_take : ofBlocks (bs.take m) = (ofBlocks bs).take (n * m) := by
  by_cases hm : m ≤ bs.length
  · have hsplit := congrArg ofBlocks (take_append_drop m bs)
    rw [ofBlocks_append] at hsplit
    rw [← hsplit, take_left']
    rw [length_ofBlocks, length_take, Nat.min_eq_left hm]
  · rw [take_of_length_le (by omega), take_of_length_le]
    rw [length_ofBlocks]
    exact Nat.mul_le_mul_left n (by omega)

theorem slice_ofBlocks (l : Nat) : slice (ofBlocks bs) (n * m) (n * l) = ofBlocks ((bs.drop m).take l) := by
  rw [slice, ofBlocks_take, ofBlocks_drop]

theorem toBlocks_append (hn : 0 < n) {bs cs : Bytes} (hbs : bs.length % n = 0) (hcs : cs.length % n = 0) :
    toBlocks n (bs ++ cs) = toBlocks n bs ++ toBlocks n cs := by
  have happend := ofBlocks_append (toBlocks n bs) (toBlocks n cs)
  rw [ofBlocks_toBlocks hn hbs, ofBlocks_toBlocks hn hcs] at happend
  rw [← happend, toBlocks_ofBlocks hn]

theorem toBlocks_slice (hn : 0 < n) {bs : Bytes} (h : bs.length % n = 0) (m l : Nat) :
    toBlocks n (slice bs (n * m) (n * l)) = ((toBlocks n bs).drop m).take l := by
  have hslice := slice_ofBlocks (toBlocks n bs) m l
  rw [ofBlocks_toBlocks hn h] at hslice
  rw [hslice, toBlocks_ofBlocks hn]

theorem getLastD_append {α : Type*} (xs ys : List α) (x : α) : (xs ++ ys).getLastD x = ys.getLastD (xs.getLastD x) := by
  simp only [getLastD_eq_getLast?, getLast?_append]
  cases ys.getLast? <;> rfl

/-- The last of the first `m` blocks, `b` if there are none. -/
def lastBlock (b : Block n) (bs : List (Block n)) (m : Nat) : Block n := (bs.take m).getLastD b

theorem lastBlock_add (b : Block n) (bs : List (Block n)) (m l : Nat) :
    ((bs.drop m).take l).getLastD (lastBlock b bs m) = lastBlock b bs (m + l) := by
  rw [lastBlock, lastBlock, take_add, getLastD_append]

/-! ## Infinite garble extension over pieces -/

variable (D E : Block n → Block n) (y x : Block n) (xs : List (Block n))

theorem igeEncrypt_append (xs' : List (Block n)) : igeEncrypt E y x (xs ++ xs') =
      igeEncrypt E y x xs ++ igeEncrypt E ((igeEncrypt E y x xs).getLastD y) (xs.getLastD x) xs' := by
  induction xs generalizing y x with
  | nil => rfl
  | cons x' xs ih => rw [cons_append, igeEncrypt, ih, igeEncrypt, getLastD_cons,
      getLastD_cons, cons_append]

variable (ys : List (Block n))

theorem igeDecrypt_append (ys' : List (Block n)) : igeDecrypt D y x (ys ++ ys') =
      igeDecrypt D y x ys ++ igeDecrypt D (ys.getLastD y) ((igeDecrypt D y x ys).getLastD x) ys' := by
  induction ys generalizing y x with
  | nil => rfl
  | cons y' ys ih => rw [cons_append, igeDecrypt, ih, igeDecrypt, getLastD_cons,
      getLastD_cons, cons_append]

theorem igeEncrypt_take (m : Nat) : igeEncrypt E y x (xs.take m) = (igeEncrypt E y x xs).take m := by
  have hsplit := igeEncrypt_append E y x (xs.take m) (xs.drop m)
  rw [take_append_drop] at hsplit
  by_cases hm : m ≤ xs.length
  · rw [hsplit, take_left']
    rw [length_igeEncrypt, length_take, Nat.min_eq_left hm]
  · rw [take_of_length_le (by omega), take_of_length_le]
    rw [length_igeEncrypt]
    omega

theorem igeDecrypt_take (m : Nat) : igeDecrypt D y x (ys.take m) = (igeDecrypt D y x ys).take m := by
  have hsplit := igeDecrypt_append D y x (ys.take m) (ys.drop m)
  rw [take_append_drop] at hsplit
  by_cases hm : m ≤ ys.length
  · rw [hsplit, take_left']
    rw [length_igeDecrypt, length_take, Nat.min_eq_left hm]
  · rw [take_of_length_le (by omega), take_of_length_le]
    rw [length_igeDecrypt]
    omega

/-- **A piece of the ciphertext is the ciphertext of the piece**, from what the pieces before it have left. -/
theorem igeEncrypt_piece (m l : Nat) :
    igeEncrypt E (lastBlock y (igeEncrypt E y x xs) m) (lastBlock x xs m) ((xs.drop m).take l) =
      ((igeEncrypt E y x xs).drop m).take l := by
  have hboth := igeEncrypt_append E y x (xs.take m) ((xs.drop m).take l)
  rw [← take_add, igeEncrypt_take, igeEncrypt_take, take_add] at hboth
  exact (append_cancel_left hboth).symm

theorem igeDecrypt_piece (m l : Nat) :
    igeDecrypt D (lastBlock y ys m) (lastBlock x (igeDecrypt D y x ys) m) ((ys.drop m).take l) =
      ((igeDecrypt D y x ys).drop m).take l := by
  have hboth := igeDecrypt_append D y x (ys.take m) ((ys.drop m).take l)
  rw [← take_add, igeDecrypt_take, igeDecrypt_take, take_add] at hboth
  exact (append_cancel_left hboth).symm

/-! ## Functions over the pieces of a stream -/

section
variable {σ : Type*} (f : Bytes → σ → Bytes × σ)

/-- The results for the pieces one after the other, each from the state that the last one has left. -/
def runPieces : List Bytes → σ → Bytes × σ
  | [], s => ([], s)
  | piece :: pieces, s =>
    let (bytes, s) := f piece s
    let (rest, s) := runPieces pieces s
    (bytes ++ rest, s)

variable {f}

theorem runPieces_eq {P : Bytes → Prop} (hP : ∀ a b, P a → P b → P (a ++ b))
    (hf : ∀ a b s, P a → P b → f (a ++ b) s = ((f a s).1 ++ (f b (f a s).2).1, (f b (f a s).2).2)) {pieces : List Bytes}
    (hne : pieces ≠ []) (hpieces : ∀ piece ∈ pieces, P piece) (s : σ) :
    P pieces.flatten ∧ runPieces f pieces s = f pieces.flatten s := by
  induction pieces generalizing s with
  | nil => exact absurd rfl hne
  | cons piece pieces ih =>
    obtain ⟨hpiece, hrest⟩ := forall_mem_cons.mp hpieces
    by_cases hlast : pieces = []
    · subst hlast
      simp [runPieces, hpiece]
    · obtain ⟨hflat, hrun⟩ := ih hlast hrest (f piece s).2
      rw [flatten_cons, hf piece pieces.flatten s hpiece hflat, ← hrun]
      exact ⟨hP piece pieces.flatten hpiece hflat, rfl⟩

end

end TelegramClient
