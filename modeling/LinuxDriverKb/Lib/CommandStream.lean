import Mathlib.Data.List.Basic
import Mathlib.Logic.Function.Basic

/-!
# Streams of commands with arguments

A device takes a stream of bytes. A byte is a command, or an argument that the command before
it waits for. Cut off and started anew, the stream is read wrongly for as many bytes as
arguments are outstanding (`decode_of_le`), and rightly from there on.

A command is stored in its register; of two register files that the same commands are written
to, only what they do not write can differ (`writeAll_congr`).
-/

set_option autoImplicit false

namespace CommandStream

variable {β : Type*} (argCount : β → ℕ)

/-! ## Decoding -/

/-- The arguments that a command still waits for; no command waits if there are none. -/
def outstanding : List β → ℕ
  | [] => 0
  | c :: args => argCount c - args.length

/-- A byte : the command that is complete with it, and the one that waits then. -/
def feed (pending : List β) (b : β) : Option (List β) × List β :=
  match pending with
  | [] => if argCount b = 0 then (some [b], []) else (none, [b])
  | c :: args =>
    if args.length + 1 = argCount c then (some (c :: args ++ [b]), []) else (none, c :: args ++ [b])

/-- The complete commands, and the one that waits at the end. -/
def decode : List β → List β → List (List β) × List β
  | pending, [] => ([], pending)
  | pending, b :: bs =>
    let r := feed argCount pending b
    ((r.1.toList ++ (decode r.2 bs).1), (decode r.2 bs).2)

variable {argCount} {pending : List β}

theorem decode_append (ys : List β) : ∀ (xs pending : List β),
    decode argCount pending (xs ++ ys) =
      ((decode argCount pending xs).1 ++ (decode argCount (decode argCount pending xs).2 ys).1,
        (decode argCount (decode argCount pending xs).2 ys).2)
  | [], _ => rfl
  | x :: xs, pending => by
    rw [List.cons_append, decode, decode, decode_append ys xs]
    simp only [List.append_assoc]

/-- A byte before the last argument. -/
theorem feed_of_lt (b : β) (h : 1 < outstanding argCount pending) :
    feed argCount pending b = (none, pending ++ [b]) ∧
      outstanding argCount (pending ++ [b]) = outstanding argCount pending - 1 := by
  cases pending with
  | nil => exact absurd h (Nat.not_lt_zero 1)
  | cons c args =>
    have hne : args.length + 1 ≠ argCount c := by
      intro heq
      rw [outstanding] at h
      omega
    refine ⟨if_neg hne, ?_⟩
    rw [List.cons_append, outstanding, outstanding, List.length_append, List.length_singleton,
      Nat.sub_add_eq]

/-- The last argument. -/
theorem feed_of_eq (b : β) (h : outstanding argCount pending = 1) :
    feed argCount pending b = (some (pending ++ [b]), []) := by
  cases pending with
  | nil => exact absurd h Nat.zero_ne_one
  | cons c args =>
    have heq : args.length + 1 = argCount c := by
      rw [outstanding] at h
      omega
    exact if_pos heq

/-- Fewer bytes than arguments are outstanding. -/
theorem decode_of_lt : ∀ {xs pending : List β}, xs.length < outstanding argCount pending →
    decode argCount pending xs = ([], pending ++ xs)
  | [], pending, _ => by rw [List.append_nil, decode]
  | x :: xs, pending, h => by
    rw [List.length_cons] at h
    obtain ⟨hfeed, hout⟩ := feed_of_lt x (Nat.lt_of_le_of_lt (Nat.le_add_left 1 xs.length) h)
    have hrest : xs.length < outstanding argCount (pending ++ [x]) := by omega
    simp only [decode, hfeed, decode_of_lt hrest, Option.toList_none, List.nil_append,
      List.append_assoc, List.singleton_append]

/-- The outstanding arguments are taken from what comes, and the rest is read from its start. -/
theorem decode_of_le : ∀ {xs pending : List β}, 0 < outstanding argCount pending →
    outstanding argCount pending ≤ xs.length →
    decode argCount pending xs =
      ((pending ++ xs.take (outstanding argCount pending)) ::
          (decode argCount [] (xs.drop (outstanding argCount pending))).1,
        (decode argCount [] (xs.drop (outstanding argCount pending))).2)
  | [], pending, hpos, hle => absurd hpos (Nat.not_lt.mpr hle)
  | x :: xs, pending, hpos, hle => by
    obtain hone | hlt : outstanding argCount pending = 1 ∨ 1 < outstanding argCount pending := by
      omega
    · rw [decode, feed_of_eq x hone, hone]
      rfl
    · obtain ⟨hfeed, hout⟩ := feed_of_lt x hlt
      have hle' : outstanding argCount (pending ++ [x]) ≤ xs.length := by
        rw [List.length_cons] at hle
        omega
      obtain ⟨n, hn⟩ : ∃ n, outstanding argCount pending = n + 1 :=
        ⟨_, (Nat.sub_add_cancel hpos).symm⟩
      rw [hn, Nat.add_sub_cancel] at hout
      have hrest := decode_of_le (by omega) hle'
      simp only [decode, hfeed, hrest, hn, hout, Option.toList_none, List.nil_append,
        List.append_assoc, List.singleton_append, List.take_succ_cons, List.drop_succ_cons]

/-! ## Registers -/

section

variable (register : β → β)

/-- Some of the commands has the register `r`. -/
def Writes (r : β) (cmds : List (List β)) : Prop :=
  ∃ cmd ∈ cmds, ∃ c ∈ cmd.head?, register c = r

instance [DecidableEq β] (r : β) (cmds : List (List β)) : Decidable (Writes register r cmds) :=
  inferInstanceAs (Decidable (∃ cmd ∈ cmds, ∃ c ∈ cmd.head?, register c = r))

variable {register} {r : β}

theorem Writes.of_cons {cmd : List β} {cmds : List (List β)} (h : Writes register r cmds) :
    Writes register r (cmd :: cmds) := by
  obtain ⟨cmd', hmem, hc⟩ := h
  exact ⟨cmd', List.mem_cons_of_mem cmd hmem, hc⟩

end

variable [DecidableEq β] (register : β → β)

/-- The register of a command holds it with its arguments. -/
def write (regs : β → List β) : List β → β → List β
  | [] => regs
  | c :: args => Function.update regs (register c) (c :: args)

/-- The registers after complete commands. -/
def writeAll (regs : β → List β) (cmds : List (List β)) : β → List β :=
  cmds.foldl (write register) regs

theorem writeAll_cons (regs : β → List β) (cmd : List β) (cmds : List (List β)) :
    writeAll register regs (cmd :: cmds) = writeAll register (write register regs cmd) cmds :=
  rfl

theorem writeAll_append (regs : β → List β) (cmds cmds' : List (List β)) :
    writeAll register regs (cmds ++ cmds') =
      writeAll register (writeAll register regs cmds) cmds' :=
  List.foldl_append

variable {register} {regs regs' : β → List β} {r : β}

theorem write_of_ne {cmd : List β} (h : ∀ c ∈ cmd.head?, register c ≠ r) :
    write register regs cmd r = regs r := by
  cases cmd with
  | nil => rfl
  | cons c args => exact Function.update_of_ne (h c rfl).symm _ _

theorem writeAll_of_not_writes : ∀ {cmds : List (List β)} {regs : β → List β},
    ¬Writes register r cmds → writeAll register regs cmds r = regs r
  | [], _, _ => rfl
  | cmd :: cmds, regs, h => by
    rw [writeAll_cons, writeAll_of_not_writes fun hrest => h hrest.of_cons]
    exact write_of_ne fun c hc hr => h ⟨cmd, List.mem_cons_self, c, hc, hr⟩

/-- Where the commands do not write, the files have to agree before. -/
theorem writeAll_congr : ∀ {cmds : List (List β)} {regs regs' : β → List β},
    (∀ r, ¬Writes register r cmds → regs r = regs' r) →
      writeAll register regs cmds = writeAll register regs' cmds
  | [], _, _, h => funext fun r => h r fun ⟨_, hmem, _⟩ => absurd hmem List.not_mem_nil
  | cmd :: cmds, regs, regs', h => by
    rw [writeAll_cons, writeAll_cons]
    refine writeAll_congr fun r hr => ?_
    by_cases hcmd : ∃ c ∈ cmd.head?, register c = r
    · obtain ⟨c, hc, rfl⟩ := hcmd
      rw [← List.cons_head?_tail hc]
      simp [write]
    · have hne : ∀ c ∈ cmd.head?, register c ≠ r := fun c hc hreg => hcmd ⟨c, hc, hreg⟩
      rw [write_of_ne hne, write_of_ne hne]
      refine h r fun ⟨cmd', hmem, hwrites⟩ => ?_
      rcases List.mem_cons.mp hmem with rfl | hmem
      · exact hcmd hwrites
      · exact hr ⟨cmd', hmem, hwrites⟩

end CommandStream
