import Rafting.LogIntegrity
import Rafting.Library.Escape

/-! The text that a log keeps of a command. Whatever its key and value contain, it stands for
one command only. -/
namespace Rafting
open Transition

/-! ## Escapes -/

def hexDigit (c : Char) : Nat :=
  if c.toNat < 97 then c.toNat - 48 else c.toNat - 87

/-- The character that an escape or a plain character stands for, and what comes after it. -/
def unescape : List Char → Option (Char × List Char)
  | '\\' :: 'u' :: '0' :: '0' :: high :: low :: rest =>
    some (Char.ofNat (hexDigit high * 16 + hexDigit low), rest)
  | '\\' :: '"' :: rest => some ('"', rest)
  | '\\' :: '\\' :: rest => some ('\\', rest)
  | '\\' :: 'b' :: rest => some (Char.ofNat 8, rest)
  | '\\' :: 't' :: rest => some (Char.ofNat 9, rest)
  | '\\' :: 'n' :: rest => some (Char.ofNat 10, rest)
  | '\\' :: 'f' :: rest => some (Char.ofNat 12, rest)
  | '\\' :: 'r' :: rest => some (Char.ofNat 13, rest)
  | c :: rest => some (c, rest)
  | [] => none

theorem eq_ofNat {c : Char} {n : Nat} (h : c.toNat = n) : c = Char.ofNat n := by
  rw [← h, Char.ofNat_toNat]

theorem hexDigit_digits : ∀ n < 32,
    hexDigit (Nat.digitChar (n / 16)) * 16 + hexDigit (Nat.digitChar (n % 16)) = n := by
  decide

theorem unescape_control {c : Char} (h : c.toNat < 32) (rest : List Char) :
    unescape ('\\' :: 'u' :: '0' :: '0' :: Nat.digitChar (c.toNat / 16) ::
      Nat.digitChar (c.toNat % 16) :: rest) = some (c, rest) := by
  rw [unescape, hexDigit_digits c.toNat h, Char.ofNat_toNat]

theorem unescape_plain {c : Char} (h : c ≠ '\\') (rest : List Char) :
    unescape (c :: rest) = some (c, rest) := by
  unfold unescape
  split
  case h_9 heq =>
    cases heq
    rfl
  case h_10 heq => cases heq
  all_goals
    rename_i heq
    cases heq
    exact absurd rfl h

theorem unescape_escapeChar (c : Char) (rest : List Char) :
    unescape ((escapeChar c).toList ++ rest) = some (c, rest) := by
  unfold escapeChar
  split
  · rename_i h
    rw [eq_ofNat h]
    rfl
  split
  · rename_i h
    rw [eq_ofNat h]
    rfl
  split
  · rename_i h
    rw [eq_ofNat h]
    rfl
  split
  · rename_i h
    rw [eq_ofNat h]
    rfl
  split
  · rename_i h
    rw [eq_ofNat h]
    rfl
  split
  · rename_i h
    rw [eq_ofNat h]
    rfl
  split
  · rename_i h
    rw [eq_ofNat h]
    rfl
  split
  · rename_i h
    simpa using unescape_control h rest
  · rename_i h _ _ _ _ _ _
    simpa using unescape_plain (fun heq => h (by rw [heq]; rfl)) rest

theorem escapeChar_avoids : Escape.Avoids (fun c => (escapeChar c).toList) '"' := by
  intro c s t heq
  have hread := unescape_escapeChar c s
  dsimp only at heq
  rw [heq, unescape_plain (by decide)] at hread
  cases hread
  rw [show (escapeChar '"').toList = ['\\', '"'] from rfl] at heq
  cases heq

theorem escapeChar_separates : Escape.Separates fun c => (escapeChar c).toList :=
  Escape.separates_of_read unescape_escapeChar

theorem toList_jsonString (s : String) :
    (jsonString s).toList = '"' :: s.toList.flatMap (fun c => (escapeChar c).toList) ++ ['"'] := by
  simp [jsonString, String.toList_append, String.toList_join, List.flatMap_map]

theorem jsonString_inj {s s' : String} {rest rest' : List Char}
    (h : (jsonString s).toList ++ rest = (jsonString s').toList ++ rest') :
    s = s' ∧ rest = rest' := by
  simp only [toList_jsonString, List.cons_append, List.append_assoc, List.cons.injEq,
    true_and] at h
  obtain ⟨hs, hrest⟩ := Escape.eq_of_closed escapeChar_separates escapeChar_avoids h
  exact ⟨String.toList_injective hs, hrest⟩

theorem SetCommand.toJson_inj {command command' : SetCommand}
    (h : command.toJson = command'.toJson) : command = command' := by
  have hchars := congrArg String.toList h
  simp only [SetCommand.toJson, String.toList_append, List.append_assoc,
    List.append_cancel_left_eq] at hchars
  obtain ⟨hkey, hrest⟩ := jsonString_inj hchars
  rw [List.append_cancel_left_eq] at hrest
  obtain ⟨hvalue, _⟩ := jsonString_inj hrest
  cases command
  cases command'
  exact congrArg₂ SetCommand.mk hkey hvalue

/-! ## Logs -/

def Records (m : Move Cluster Action) (command : SetCommand) (e : LogEntry) : Prop :=
  ∃ a, m.action = .client a command ∧ (m.before.node a).state = .leader ∧
    (m.before.node a).currentTerm = e.term ∧
    (m.after.node a).log = (m.before.node a).log.append e

/-- Every entry of every log of a run stands for one command, which a leader accepted. -/
theorem command_of_run {cfg : Config} {h : List (Move Cluster Action)} {c : Cluster}
    (run : Run (cluster cfg) h c) {x : Cluster} (hx : x ∈ moments h c) {a : NodeId} {e : LogEntry}
    (he : e ∈ (x.node a).log.inner) :
    ∃! command, e.command = command.toJson ∧ ∃ m ∈ h, Records m command e := by
  obtain ⟨m, hm, l, command, hact, hleader, hterm, hentry, hlog⟩ :=
    (integrity_of_run run x hx a).2 e he
  have htext : e.command = command.toJson := by rw [hentry]; rfl
  refine ⟨command, ⟨htext, m, hm, l, hact, hleader, hterm, hlog⟩, ?_⟩
  rintro command' ⟨htext', _⟩
  exact SetCommand.toJson_inj (htext'.symm.trans htext)

/-- A key that looks like the end of a key and the beginning of a value. -/
theorem command_of_run_quoted :
    ∃ h c, Run (cluster twoNodes) h c ∧ ∃ e ∈ (c.node "node2").log.inner,
      e.command = SetCommand.toJson ⟨"x\",\"value\":\"1", "2"⟩ ∧
      ∃! command, e.command = command.toJson ∧ ∃ m ∈ h, Records m command e := by
  obtain ⟨h, c, run, _, e, he, htext⟩ := exists_run_of_exec (cluster twoNodes) (fun _ _ => True)
    (fun c => ∃ e ∈ (c.node "node2").log.inner,
      e.command = SetCommand.toJson ⟨"x\",\"value\":\"1", "2"⟩)
    (twoNodes.allUp ++ electionTimeout "node1" ++ exchange "node1" ["node2"] ++
      exchange "node1" ["node2"] ++ [.client "node1" ⟨"x\",\"value\":\"1", "2"⟩] ++
      heartbeatTimeout "node1" ++ exchange "node1" ["node2"])
    (by decide +kernel)
  exact ⟨h, c, run, e, he, htext, command_of_run run (mem_moments_self h c) he⟩

end Rafting
