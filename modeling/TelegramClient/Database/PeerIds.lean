import Mathlib.Algebra.GroupWithZero.Nat
import Mathlib.Algebra.Ring.Int.Defs

/-!
# Peer ids

The id of a peer is a 64-bit number, and its range says what kind of peer it is (`TGPeerIdAdapter.h`). Message ids are
32-bit numbers; those from `messageLocalMidBaseline` on are given out by the client.
-/

namespace TelegramClient.Database

def int32Min : Int := -2 ^ 31

def int32Max : Int := 2 ^ 31 - 1

def toInt32 (n : Int) : Int := n.bmod (2 ^ 32)

def IsInt32 (n : Int) : Prop := int32Min ≤ n ∧ n ≤ int32Max

instance (n : Int) : Decidable (IsInt32 n) := inferInstanceAs (Decidable (_ ∧ _))

theorem isInt32_toInt32 (n : Int) : IsInt32 (toInt32 n) := by
  have hlow := Int.le_bmod (x := n) (m := 2 ^ 32) (by decide)
  have hhigh := Int.bmod_lt (x := n) (m := 2 ^ 32) (by decide)
  unfold IsInt32 toInt32 int32Min int32Max
  omega

theorem toInt32_of_isInt32 {n : Int} (h : IsInt32 n) : toInt32 n = n := by
  unfold IsInt32 int32Min int32Max at h
  exact Int.bmod_eq_of_le (by omega) (by omega)

/-- `TGMessageLocalMidBaseline`. -/
def messageLocalMidBaseline : Int := 800000000

/-! ## Kinds of peers -/

def peerIdIsGroup (peerId : Int) : Bool := peerId < 0 && peerId > int32Min

def peerIdIsUser (peerId : Int) : Bool := peerId > 0 && peerId < int32Max

def peerIdIsChannel (peerId : Int) : Bool := peerId ≤ int32Min * 2 && peerId > int32Min * 3

def peerIdIsAdminLog (peerId : Int) : Bool := peerId ≤ int32Min * 3 && peerId > int32Min * 4

def peerIdIsSecretChat (peerId : Int) : Bool := peerId ≤ int32Min && peerId > int32Min * 2

def peerIdFromChannelId (channelId : Int) : Int := int32Min * 2 - channelId

end TelegramClient.Database
