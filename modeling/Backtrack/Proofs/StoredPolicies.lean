import Backtrack.Proofs.SteadyFiles
import Backtrack.Proofs.StoredFiles
import Backtrack.Proofs.TextCoding
import Backtrack.Proofs.TomlDocuments

/-! Policies that are saved and loaded. A policy comes back from its file as it was, whatever its
delimiters are made of and whatever forms their texts have in the file. -/
namespace Backtrack

/-- The directories that lead to the path can be made, and then a file can be written there. -/
def FileTree.Writable (tree : FileTree) (path : String) : Prop :=
  ∃ ready after, FileTree.files.makeParents path tree = (.ok (), ready) ∧
    ready.write path [] = .ok after

namespace Config.Policy

open Toml (Entries Spelled Written)

/-- What a file tells of a policy. -/
def entries (p : Policy) : Entries := [
  ("line_comment", .text p.lineComment),
  ("block_comment_start", .text p.blockCommentStart),
  ("block_comment_end", .text p.blockCommentEnd),
  ("section_start", .text p.sectionStart),
  ("section_end", .text p.sectionEnd),
  ("assign", .text p.assign),
  ("trim", .boolean p.trim),
  ("alnum_names", .boolean p.alnumNames),
  ("quoted_values", .boolean p.quotedValues),
  ("max_errors", .integer p.budget)]

theorem entries_apart (p : Policy) : (p.entries.map (·.1)).Nodup := by
  simp only [entries, List.map_cons, List.map_nil]
  decide

theorem ofEntries?_entries (p : Policy) : ofEntries? p.entries = some p := by
  have budget : natural? (.integer p.budget) = some p.budget := by simp [natural?]
  simp [ofEntries?, field, entries, List.lookup_cons, text?, boolean?, budget]

variable {p : Policy} {document : String}

/-- A policy is read from every document that tells it. -/
theorem ofText?_of_spelled (spelled : Spelled p.entries document.toList) :
    ofText? document = some p := by
  rw [ofText?, spelled.read p.entries_apart, Option.bind_some, ofEntries?_entries]

theorem held_of_spelled (inOrder : p.validate = .ok ())
    (spelled : Spelled p.entries document.toList) (path : String) :
    held path (Text.utf8 document) = .ok p := by
  rw [held, Text.strict?_utf8]
  dsimp only
  rw [ofText?_of_spelled spelled]
  dsimp only
  rw [inOrder]
  rfl

theorem text_written (text : String) :
    Written (.text text) (Toml.textLiteral text).toList := by
  obtain ⟨long, literal⟩ := Toml.textLiteral_literal text
  have written := Written.text literal
  rwa [String.ofList_toList] at written

/-- What is saved is such a document. -/
theorem toText_spelled (small : p.budget < 0x8000000000000000) :
    Spelled p.entries p.toText.toList := by
  apply Toml.spelled_join [
    ("line_comment", .text p.lineComment, Toml.textLiteral p.lineComment),
    ("block_comment_start", .text p.blockCommentStart, Toml.textLiteral p.blockCommentStart),
    ("block_comment_end", .text p.blockCommentEnd, Toml.textLiteral p.blockCommentEnd),
    ("section_start", .text p.sectionStart, Toml.textLiteral p.sectionStart),
    ("section_end", .text p.sectionEnd, Toml.textLiteral p.sectionEnd),
    ("assign", .text p.assign, Toml.textLiteral p.assign),
    ("trim", .boolean p.trim, toString p.trim),
    ("alnum_names", .boolean p.alnumNames, toString p.alnumNames),
    ("quoted_values", .boolean p.quotedValues, toString p.quotedValues),
    ("max_errors", .integer p.budget, toString p.budget)]
  simp only [List.forall_mem_cons, List.not_mem_nil, IsEmpty.forall_iff, implies_true, text_written,
    Toml.boolean_written, Toml.number_written small]
  decide

/-- What a file tells is loaded from where it was written. -/
theorem load_written (inOrder : p.validate = .ok ())
    (spelled : Spelled p.entries document.toList) {tree after : FileTree} {path : String}
    (written : tree.write path (Text.utf8 document) = .ok after) :
    load FileTree.files path after = (.ok (some p), after) := by
  obtain ⟨read, present⟩ := FileTree.read_written written
  have value : (load FileTree.files path after).1 = .ok (some p) := by
    have present : (FileTree.files.isPresent path after).1 = true := present
    have read : (FileTree.files.read path after).1 = .ok (Text.utf8 document) := read
    rw [value_load FileTree.files_steady, if_pos present, read]
    dsimp only
    rw [held_of_spelled inOrder spelled]
    rfl
  exact Prod.ext value (load_looks FileTree.files_steady path after)

/-- Saving fails only where nothing can be written. -/
theorem save_written (small : p.budget < 0x8000000000000000) {tree : FileTree} {path : String}
    (writable : tree.Writable path) :
    ∃ ready after : FileTree, ready.write path (Text.utf8 p.toText) = .ok after ∧
      p.save FileTree.files path tree = (.ok (), after) := by
  obtain ⟨ready, empty, made, written⟩ := writable
  obtain ⟨names, name, spot, -⟩ := FileTree.write_spot written
  have stored := spot.write (Text.utf8 p.toText)
  refine ⟨ready, _, stored, ?_⟩
  have wrote : FileTree.files.write path (Text.utf8 p.toText) ready =
      (.ok (), ready.put (names ++ [name]) (.file (Text.utf8 p.toText))) := by
    simp only [FileTree.files, stored]
  simp only [save, bind, StateT.bind, made, Nat.not_le.mpr small, if_false, wrote]
  rfl

end Config.Policy
end Backtrack
