import Mathlib
import SlideDeck.Proofs.Sandbox.Execution
import SlideDeck.Proofs.Script.Encoding

/-!
What is kept of the lines that a run writes, and that is decided by the lines alone: their longest front
that fits into the console, with a mark behind it if that is not all of them. However the functions that
write take turns, and whatever the script does in between, the console is shared by them.
-/

namespace SlideDeck

namespace Console

def size (lines : List String) : Nat := (lines.map String.utf8ByteSize).sum

def Fits (lines : List String) : Prop := lines.length ≤ maxLines ∧ size lines ≤ maxBytes

/-- The longest front of the lines that fits. -/
structure Longest (written kept : List String) : Prop where
  front : kept <+: written
  fits : Fits kept
  longest : ∀ lines, lines <+: written → Fits lines → lines <+: kept

/-- What a console shows when lines have been written to it: their longest front that fits, and a mark
behind it exactly if that is not all of them. -/
def Shows (written shown : List String) : Prop :=
  ∃ kept, Longest written kept ∧ shown = kept ++ if kept = written then [] else [truncationMark]

inductive Follows : List String → Console → Prop
  | whole {written : List String} {c : Console} (clear : c.truncated = false)
      (lines : c.lines.toList = written) (bytes : c.bytes = size written) (fits : Fits written) :
      Follows written c
  | front {kept rest : List String} {next : String} {c : Console} (full : c.truncated = true)
      (lines : c.lines.toList = kept ++ [truncationMark]) (fits : Fits kept)
      (refused : ¬ Fits (kept ++ [next])) : Follows (kept ++ next :: rest) c

section Lines

variable {written kept shown : List String} {c : Console}

@[simp]
theorem size_append (before after : List String) : size (before ++ after) = size before + size after := by
  simp [size]

@[simp]
theorem size_singleton (line : String) : size [line] = line.utf8ByteSize := by
  simp [size]

theorem Fits.front (fits : Fits written) (front : kept <+: written) : Fits kept := by
  rcases front with ⟨rest, rfl⟩
  rcases fits with ⟨number, bytes⟩
  rw [List.length_append] at number
  rw [size_append] at bytes
  exact ⟨by omega, by omega⟩

theorem Longest.unique {other : List String} (this : Longest written kept) (that : Longest written other) :
    kept = other := by
  have there : kept <+: other := that.longest kept this.front this.fits
  have back : other <+: kept := this.longest other that.front that.fits
  exact there.eq_of_length_le back.length_le

theorem Shows.unique {other : List String} (this : Shows written shown) (that : Shows written other) :
    shown = other := by
  rcases this with ⟨kept, longest, rfl⟩
  rcases that with ⟨kept', longest', rfl⟩
  rw [longest.unique longest']

theorem longest_of_refused {next : String} {rest : List String} (fits : Fits kept)
    (refused : ¬ Fits (kept ++ [next])) : Longest (kept ++ next :: rest) kept := by
  refine ⟨List.prefix_append kept _, fits, ?_⟩
  intro lines front inside
  have more : kept ++ [next] <+: kept ++ next :: rest := ⟨rest, by simp⟩
  rcases List.prefix_or_prefix_of_prefix front more with short | long
  · rcases List.prefix_concat_iff.mp short with whole | within
    · exact absurd (whole ▸ inside) refused
    · exact within
  · exact absurd (inside.front long) refused

theorem shows_whole (fits : Fits written) : Shows written written := by
  refine ⟨written, ⟨List.prefix_rfl, fits, fun _ front _ => front⟩, ?_⟩
  rw [if_pos rfl, List.append_nil]

theorem shows_front {next : String} {rest : List String} (fits : Fits kept)
    (refused : ¬ Fits (kept ++ [next])) : Shows (kept ++ next :: rest) (kept ++ [truncationMark]) := by
  have less : kept ≠ kept ++ next :: rest := by simp
  refine ⟨kept, longest_of_refused fits refused, ?_⟩
  rw [if_neg less]

theorem push_of_truncated (full : c.truncated = true) (line : String) : c.push line = c := by
  rw [push, if_pos full]

theorem Follows.push (follows : Follows written c) (line : String) :
    Follows (written ++ [line]) (c.push line) := by
  cases follows with
  | whole clear lines bytes fits =>
      have number : c.lines.size = written.length := by rw [← lines, Array.length_toList]
      have room : (maxLines ≤ c.lines.size ∨ maxBytes < c.bytes + line.utf8ByteSize) ↔
          ¬ Fits (written ++ [line]) := by
        rw [number, bytes, Fits, List.length_append, size_append, size_singleton, List.length_singleton]
        omega
      rw [Console.push, clear, if_neg Bool.false_ne_true]
      by_cases inside : Fits (written ++ [line])
      · have fitting : ¬ (maxLines ≤ c.lines.size ∨ maxBytes < c.bytes + line.utf8ByteSize) := by
          rw [room, not_not]
          exact inside
        simp only [Bool.or_eq_true, decide_eq_true_eq, if_neg fitting]
        exact .whole rfl (by simp [lines]) (by simp [bytes]) inside
      · simp only [Bool.or_eq_true, decide_eq_true_eq, if_pos (room.mpr inside)]
        exact .front rfl (by simp [lines]) fits inside
  | front full lines fits refused =>
      rw [push_of_truncated full, List.append_assoc, List.cons_append]
      exact .front full lines fits refused

theorem Follows.foldl (follows : Follows written c) (lines : List String) :
    Follows (written ++ lines) (lines.foldl Console.push c) := by
  induction lines generalizing written c with
  | nil =>
      rw [List.append_nil]
      exact follows
  | cons line rest ih =>
      rw [List.foldl_cons, List.append_cons]
      exact ih (follows.push line)

theorem Follows.shows (follows : Follows written c) : Shows written c.lines.toList := by
  cases follows with
  | whole _ lines _ fits =>
      rw [lines]
      exact shows_whole fits
  | front _ lines fits refused =>
      rw [lines]
      exact shows_front fits refused

end Lines

end Console

namespace Script

abbrev Written := ConsoleWriter × List String

def Written.line (call : Written) : String := call.1.line call.2

/-- A machine has come from another, and these calls have written lines on the way. A call with an argument
that is no text writes none, and what else the machine did left the console alone. -/
inductive Machine.Wrote (m : Machine) : List Written → Machine → Prop
  | nothing : Wrote m [] m
  | aside {calls : List Written} {m' m'' : Machine} (earlier : Wrote m calls m')
      (console : m''.console = m'.console) : Wrote m calls m''
  | call {calls : List Written} {m' : Machine} {c : Invocation} {w : ConsoleWriter} {texts : List String}
      (earlier : Wrote m calls m') (writes : c.builtin = .write w)
      (read : c.args.toList.mapM Invocation.lineText = .ok texts) (caller : Invocation.Caller) :
      Wrote m (calls ++ [(w, texts)]) ((c.answer caller).after m')
  | unread {calls : List Written} {m' : Machine} {c : Invocation} {w : ConsoleWriter} {e : ConversionProblem}
      (earlier : Wrote m calls m') (writes : c.builtin = .write w)
      (read : c.args.toList.mapM Invocation.lineText = .error e) (caller : Invocation.Caller) :
      Wrote m calls ((c.answer caller).after m')

variable {m m' m'' : Machine} {c : Invocation} {w : ConsoleWriter} {texts : List String}

theorem Invocation.answer_write (writes : c.builtin = .write w) (caller : Invocation.Caller) :
    c.answer caller = c.write w := by
  rw [Invocation.answer, writes]

/-- A full console is not written to, and that is what becomes of a line pushed onto it. -/
theorem Invocation.after_write (read : c.args.toList.mapM Invocation.lineText = .ok texts) (m : Machine) :
    (c.write w).after m = { m with console := m.console.push (w.line texts) } := by
  unfold Invocation.write
  rw [Exec.after_bind]
  dsimp only [get, getThe, MonadStateOf.get, EStateM.get]
  split
  · rename_i full
    rw [Console.push_of_truncated full]
    rfl
  · rw [read]
    rfl

theorem Invocation.after_write_unread {e : ConversionProblem}
    (read : c.args.toList.mapM Invocation.lineText = .error e) (m : Machine) : (c.write w).after m = m := by
  unfold Invocation.write
  rw [Exec.after_bind]
  dsimp only [get, getThe, MonadStateOf.get, EStateM.get]
  split
  · rfl
  · rw [read]
    rfl

theorem Machine.wrote_texts (m : Machine) (w : ConsoleWriter) (texts : List String) :
    m.Wrote [(w, texts)] { m with console := m.console.push (w.line texts) } := by
  let c : Invocation := ⟨none, .write w, (texts.map Value.ofString).toArray⟩
  have read : c.args.toList.mapM Invocation.lineText = .ok texts := by
    have same : ∀ text ∈ texts, Invocation.lineText (.ofString text) = .ok text := by
      intro text _
      exact decodeText_toUTF8 text
    rw [List.toList_toArray, mapM_eq_ok_iff, List.forall₂_map_left_iff]
    exact List.forall₂_same.mpr same
  have written := Machine.Wrote.nothing.call (m := m) (c := c) (w := w) rfl read fun _ _ => pure #[]
  rwa [Invocation.answer_write rfl, Invocation.after_write read] at written

theorem Machine.Wrote.trans {calls more : List Written} (first : m.Wrote calls m')
    (second : m'.Wrote more m'') : m.Wrote (calls ++ more) m'' := by
  induction second with
  | nothing =>
      rw [List.append_nil]
      exact first
  | aside _ console ih => exact ih.aside console
  | call _ writes read caller ih =>
      rw [← List.append_assoc]
      exact ih.call writes read caller
  | unread _ writes read caller ih => exact ih.unread writes read caller

/-- Whatever a machine does, it has a history. -/
theorem Machine.Reaches.wrote (reaches : m.Reaches m') : ∃ calls, m.Wrote calls m' := by
  induction reaches with
  | refl => exact ⟨[], .nothing⟩
  | tail _ change ih =>
      rcases ih with ⟨calls, earlier⟩
      cases change with
      | work same => exact ⟨calls, earlier.aside same.console⟩
      | store => exact ⟨calls, earlier.aside rfl⟩
      | write w texts => exact ⟨calls ++ [(w, texts)], earlier.trans (Machine.wrote_texts _ w texts)⟩

theorem Machine.Wrote.console {calls : List Written} (wrote : m.Wrote calls m') :
    m'.console = (calls.map Written.line).foldl Console.push m.console := by
  induction wrote with
  | nothing => rfl
  | aside _ console ih => rw [console, ih]
  | @call calls m' c w texts _ writes read caller ih =>
      rw [Invocation.answer_write writes, Invocation.after_write read, ih, List.map_append, List.foldl_append]
      rfl
  | unread _ writes read caller ih =>
      rw [Invocation.answer_write writes, Invocation.after_write_unread read, ih]

end Script

namespace Sandbox

open Script (Machine Program Written)

structure Shown (calls : List Written) (m : Machine) : Prop where
  lines : Console.Shows (calls.map Written.line) m.console.lines.toList
  later : ∀ more m', m.Wrote more m' → m.console.lines.toList <+: m'.console.lines.toList
  full : m.console.truncated = true → ∀ more m', m.Wrote more m' → m'.console = m.console

end Sandbox

end SlideDeck
