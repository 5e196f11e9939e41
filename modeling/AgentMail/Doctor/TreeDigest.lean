import AgentMail.Doctor.SealedRuns
import AgentMail.Lib.PrefixCode

/-!
# The digest of a quarantined tree

`sha256_of_dir_tree` (`crates/mcp-agent-mail-cli/src/doctor/mutate.rs:313–374`): the digest that undo
checks (`undo.rs:1344–1393`) before it moves a directory back.

An entry is its path, a NUL, its description and a newline. The target of a link goes into the
description as it is, so a newline in it can pass for the end of the entry.
-/

namespace AgentMail.Doctor

open Base Lib List

/-! ### Trees -/

/-- What stands under a name, with its permission bits; a directory has its children in the order they
are listed. -/
inductive Node where
  | dir (mode : Nat) (children : List (Text × Node))
  | symlink (mode : Nat) (target : Text)
  | file (mode : Nat) (content : Bytes)
  /-- A FIFO, a socket or a device. -/
  | special

structure LegalName (name : Text) : Prop where
  ne_nil : name ≠ []
  noSlash : '/' ∉ name
  noNul : '\x00' ∉ name

instance (name : Text) : Decidable (LegalName name) :=
  decidable_of_iff (name ≠ [] ∧ '/' ∉ name ∧ '\x00' ∉ name)
    ⟨fun h => ⟨h.1, h.2.1, h.2.2⟩, fun h => ⟨h.ne_nil, h.noSlash, h.noNul⟩⟩

mutual

def Node.Legal : Node → Prop
  | .dir _ children => LegalChildren children
  | .symlink _ target => '\x00' ∉ target
  | .file _ _ => True
  | .special => True

def LegalChildren : List (Text × Node) → Prop
  | [] => True
  | (name, node) :: rest =>
    LegalName name ∧ name ∉ rest.map Prod.fst ∧ node.Legal ∧ LegalChildren rest

end

/-- A directory by its children; its own mode and name are not part of the digest. -/
structure DirTree where
  children : List (Text × Node)
  legal : LegalChildren children

/-- What a path of a tree has. -/
inductive Entry where
  | dir (mode : Nat)
  | symlink (mode : Nat) (target : Text)
  | file (mode : Nat) (content : Bytes)
  deriving DecidableEq

mutual

/-- A node that stands under `path` and what is below it, without the specials. -/
def Node.entries (path : List Text) : Node → List (List Text × Entry)
  | .dir mode children => (path, .dir mode) :: entriesBelow path children
  | .symlink mode target => [(path, .symlink mode target)]
  | .file mode content => [(path, .file mode content)]
  | .special => []

def entriesBelow (path : List Text) : List (Text × Node) → List (List Text × Entry)
  | [] => []
  | (name, node) :: rest => node.entries (path ++ [name]) ++ entriesBelow path rest

end

def DirTree.entries (t : DirTree) : List (List Text × Entry) := entriesBelow [] t.children

/-- The same paths, with the same kinds, modes, contents and targets. -/
def DirTree.Same (t t' : DirTree) : Prop :=
  ∀ path entry, (path, entry) ∈ t.entries ↔ (path, entry) ∈ t'.entries

/-! ### The digest -/

/-- `{mode:o}`. -/
def octal (mode : Nat) : Text := Nat.toDigits 8 mode

def describe (C : Crates) : Entry → Text
  | .dir mode => "dir:".toList ++ octal mode
  | .symlink mode target => "symlink:".toList ++ octal mode ++ ':' :: target
  | .file mode content => "file:".toList ++ octal mode ++ ':' :: sha256Text C content

/-- A listing by its names: what there is for the first name, then for the second, and so on. -/
def byName {α : Type} (listing : List (Text × List α)) : List α :=
  (listing.insertionSort fun a b => textLe a.1 b.1 = true).flatMap Prod.snd

mutual

/-- `walk`, for one entry of a listing. -/
def Node.walk (C : Crates) (rel : List Text) : Node → List (Text × Text)
  | .dir mode children =>
    (joinSlash rel, describe C (.dir mode)) :: byName (walkEach C rel children)
  | .symlink mode target => [(joinSlash rel, describe C (.symlink mode target))]
  | .file mode content => [(joinSlash rel, describe C (.file mode content))]
  | .special => []

/-- The names of a listing, each with what the walk pushes for it. -/
def walkEach (C : Crates) (rel : List Text) :
    List (Text × Node) → List (Text × List (Text × Text))
  | [] => []
  | (name, node) :: rest => (name, node.walk C (rel ++ [name])) :: walkEach C rel rest

end

/-- The order of a pair of texts. -/
def pairLe (a b : Text × Text) : Bool := if a.1 = b.1 then textLe a.2 b.2 else textLe a.1 b.1

def hashedText (entries : List (Text × Text)) : Text :=
  entries.flatMap fun e => e.1 ++ '\x00' :: (e.2 ++ ['\n'])

def DirTree.text (C : Crates) (t : DirTree) : Text :=
  hashedText ((byName (walkEach C [] t.children)).insertionSort fun a b => pairLe a b = true)

def sha256OfDirTree (C : Crates) (t : DirTree) : Text := sha256Text C (utf8 (t.text C))

/-! ### When two trees have one text -/

/-- The entries by their paths. -/
def DirTree.sorted (t : DirTree) : List (Text × Entry) :=
  (t.entries.map fun e => (joinSlash e.1, e.2)).insertionSort fun a b => textLe a.1 b.1 = true

/-- The path of the first entry, or nothing. -/
def firstPath : List (Text × Entry) → Text
  | [] => []
  | (path, _) :: _ => path

/-- Two entries that the text does not tell apart, with the paths that follow them: what a link's
target has behind a newline may belong to the next path. -/
def Alike (next next' : Text) : Entry → Entry → Prop
  | .dir mode, .dir mode' => mode = mode' ∧ next = next'
  | .file mode content, .file mode' content' => mode = mode' ∧ content = content' ∧ next = next'
  | .symlink mode target, .symlink mode' target' =>
    mode = mode' ∧ target ++ '\n' :: next = target' ++ '\n' :: next'
  | _, _ => False

def Aligned : List (Text × Entry) → List (Text × Entry) → Prop
  | [], [] => True
  | (_, e) :: l, (_, e') :: l' => Alike (firstPath l) (firstPath l') e e' ∧ Aligned l l'
  | _, _ => False

/-- Two different trees of which one has, in a link's target, text that the other has in the path
behind that link. -/
def Regrouped (t t' : DirTree) : Prop :=
  t.sorted ≠ t'.sorted ∧ firstPath t.sorted = firstPath t'.sorted ∧ Aligned t.sorted t'.sorted

/-- No newline in a link's target. -/
def Entry.OneLine : Entry → Prop
  | .symlink _ target => '\n' ∉ target
  | .dir _ | .file _ _ => True

/-- The texts that are hashed for a tree. -/
def DirTree.hashed (C : Crates) (t : DirTree) : List Bytes :=
  utf8 (t.text C) :: t.entries.filterMap fun e =>
    match e.2 with
    | .file _ content => some content
    | _ => none

/-! ### Paths -/

variable {e : List Text × Entry}

mutual

theorem Node.path_starts {path : List Text} :
    ∀ node : Node, e ∈ node.entries path → path <+: e.1
  | .dir mode children, h => by
    rcases mem_cons.mp h with rfl | h
    · exact prefix_rfl
    · obtain ⟨name, _, hname⟩ := name_starts children h
      exact (prefix_append path [name]).trans hname
  | .symlink mode target, h => by
    rw [mem_singleton.mp h]
  | .file mode content, h => by
    rw [mem_singleton.mp h]
  | .special, h => by
    cases h

theorem name_starts {path : List Text} :
    ∀ children : List (Text × Node), e ∈ entriesBelow path children →
      ∃ name ∈ children.map Prod.fst, path ++ [name] <+: e.1
  | [], h => by
    cases h
  | (name, node) :: rest, h => by
    rcases mem_append.mp h with h | h
    · exact ⟨name, mem_cons_self, node.path_starts h⟩
    · obtain ⟨other, hmem, hother⟩ := name_starts rest h
      exact ⟨other, mem_cons_of_mem _ hmem, hother⟩

end

/-- Two children of a directory share no path. -/
theorem name_eq_of_starts {path rest : List Text} {name other : Text}
    (h : path ++ [name] <+: rest) (hother : path ++ [other] <+: rest) : name = other := by
  have hlength : (path ++ [name]).length = (path ++ [other]).length := by simp
  have heq := (prefix_of_prefix_length_le h hother hlength.le).eq_of_length hlength
  exact singleton_inj.mp (append_cancel_left heq)

mutual

theorem Node.nodup_paths {path : List Text} :
    ∀ node : Node, node.Legal → ((node.entries path).map Prod.fst).Nodup
  | .dir mode children, h => by
    apply nodup_cons.mpr
    refine ⟨?_, nodup_paths_below children h⟩
    intro hmem
    obtain ⟨e, he, hpath⟩ := mem_map.mp hmem
    obtain ⟨name, _, hname⟩ := name_starts children he
    rw [hpath] at hname
    have hlength : (path ++ [name]).length ≤ path.length := hname.length_le
    rw [length_append, length_singleton] at hlength
    omega
  | .symlink mode target, _ => nodup_singleton _
  | .file mode content, _ => nodup_singleton _
  | .special, _ => nodup_nil

theorem nodup_paths_below {path : List Text} :
    ∀ children : List (Text × Node), LegalChildren children →
      ((entriesBelow path children).map Prod.fst).Nodup
  | [], _ => nodup_nil
  | (name, node) :: rest, h => by
    obtain ⟨_, hfresh, hnode, hrest⟩ := h
    rw [entriesBelow, map_append]
    apply (node.nodup_paths hnode).append (nodup_paths_below rest hrest)
    intro p hp hp'
    obtain ⟨e, he, rfl⟩ := mem_map.mp hp
    obtain ⟨e', he', hpath⟩ := mem_map.mp hp'
    obtain ⟨other, hother, hstarts⟩ := name_starts rest he'
    rw [hpath] at hstarts
    exact hfresh (name_eq_of_starts (node.path_starts he) hstarts ▸ hother)

end

/-- No NUL in a link's target. -/
def Entry.Legal : Entry → Prop
  | .symlink _ target => '\x00' ∉ target
  | .dir _ | .file _ _ => True

mutual

theorem Node.legal_of_mem {path : List Text} (hpath : ∀ name ∈ path, LegalName name) :
    ∀ node : Node, node.Legal → e ∈ node.entries path → (∀ name ∈ e.1, LegalName name) ∧ e.2.Legal
  | .dir mode children, h, he => by
    rcases mem_cons.mp he with rfl | he
    · exact ⟨hpath, trivial⟩
    · exact legal_of_mem_below hpath children h he
  | .symlink mode target, h, he => by
    rw [mem_singleton.mp he]
    exact ⟨hpath, h⟩
  | .file mode content, _, he => by
    rw [mem_singleton.mp he]
    exact ⟨hpath, trivial⟩
  | .special, _, he => by
    cases he

theorem legal_of_mem_below {path : List Text} (hpath : ∀ name ∈ path, LegalName name) :
    ∀ children : List (Text × Node), LegalChildren children → e ∈ entriesBelow path children →
      (∀ name ∈ e.1, LegalName name) ∧ e.2.Legal
  | [], _, he => by
    cases he
  | (name, node) :: rest, h, he => by
    obtain ⟨hname, _, hnode, hrest⟩ := h
    rcases mem_append.mp he with he | he
    · apply node.legal_of_mem _ hnode he
      intro s hs
      rcases mem_append.mp hs with hs | hs
      · exact hpath s hs
      · rw [mem_singleton.mp hs]
        exact hname
    · exact legal_of_mem_below hpath rest hrest he

end

namespace DirTree

variable {t t' : DirTree} {e : List Text × Entry}

theorem legalName_of_mem (h : e ∈ t.entries) : ∀ name ∈ e.1, LegalName name :=
  (legal_of_mem_below (fun _ h => absurd h not_mem_nil) t.children t.legal h).1

theorem legal_of_mem (h : e ∈ t.entries) : e.2.Legal :=
  (legal_of_mem_below (fun _ h => absurd h not_mem_nil) t.children t.legal h).2

theorem ne_nil_of_mem (h : e ∈ t.entries) : e.1 ≠ [] := by
  obtain ⟨name, _, hname⟩ := name_starts t.children h
  intro hnil
  rw [hnil, nil_append] at hname
  exact absurd (prefix_nil.mp hname) (cons_ne_nil name [])

theorem joinSlash_inj {e' : List Text × Entry} (h : e ∈ t.entries) (h' : e' ∈ t'.entries)
    (heq : joinSlash e.1 = joinSlash e'.1) : e.1 = e'.1 := by
  rw [← splitSlash_joinSlash (fun s hs => (legalName_of_mem h s hs).noSlash) (ne_nil_of_mem h), heq,
    splitSlash_joinSlash (fun s hs => (legalName_of_mem h' s hs).noSlash) (ne_nil_of_mem h')]

end DirTree

/-! ### The walk -/

/-- What is pushed for an entry. -/
def pushed (C : Crates) (e : List Text × Entry) : Text × Text := (joinSlash e.1, describe C e.2)

theorem byName_perm {α : Type} (listing : List (Text × List α)) :
    (byName listing).Perm (listing.flatMap Prod.snd) :=
  (perm_insertionSort _ _).flatMap_right _

mutual

theorem Node.walk_perm (C : Crates) (path : List Text) :
    ∀ node : Node, (node.walk C path).Perm ((node.entries path).map (pushed C))
  | .dir mode children => by
    rw [Node.walk, Node.entries, map_cons]
    exact ((byName_perm _).trans (walkEach_perm C path children)).cons _
  | .symlink mode target => .refl _
  | .file mode content => .refl _
  | .special => .refl _

theorem walkEach_perm (C : Crates) (path : List Text) :
    ∀ children : List (Text × Node), ((walkEach C path children).flatMap Prod.snd).Perm
        ((entriesBelow path children).map (pushed C))
  | [] => .refl _
  | (name, node) :: rest => by
    rw [walkEach, entriesBelow, map_append, flatMap_cons]
    exact (node.walk_perm C (path ++ [name])).append (walkEach_perm C path rest)

end

theorem pairLe_total (a b : Text × Text) : pairLe a b = true ∨ pairLe b a = true := by
  unfold pairLe
  by_cases h : a.1 = b.1
  · rw [if_pos h, if_pos h.symm]
    exact textLe_total a.2 b.2
  · rw [if_neg h, if_neg (Ne.symm h)]
    exact textLe_total a.1 b.1

theorem pairLe_antisymm {a b : Text × Text} (h : pairLe a b = true) (h' : pairLe b a = true) :
    a = b := by
  unfold pairLe at h h'
  by_cases heq : a.1 = b.1
  · rw [if_pos heq] at h
    rw [if_pos heq.symm] at h'
    exact Prod.ext heq (textLe_antisymm h h')
  · rw [if_neg heq] at h
    rw [if_neg (Ne.symm heq)] at h'
    exact absurd (textLe_antisymm h h') heq

theorem pairLe_trans {a b c : Text × Text} (h : pairLe a b = true) (h' : pairLe b c = true) :
    pairLe a c = true := by
  unfold pairLe at h h' ⊢
  by_cases hab : a.1 = b.1
  · rw [if_pos hab] at h
    by_cases hbc : b.1 = c.1
    · rw [if_pos hbc] at h'
      rw [if_pos (hab.trans hbc)]
      exact textLe_trans h h'
    · rw [if_neg hbc] at h'
      rwa [hab, if_neg hbc]
  · rw [if_neg hab] at h
    by_cases hbc : b.1 = c.1
    · rwa [← hbc, if_neg hab]
    · rw [if_neg hbc] at h'
      have hac : a.1 ≠ c.1 := by
        intro hac
        rw [← hac] at h'
        exact hab (textLe_antisymm h h')
      rw [if_neg hac]
      exact textLe_trans h h'

instance : Std.Total (fun a b : Text × Text => pairLe a b = true) := ⟨pairLe_total⟩

instance : IsTrans (Text × Text) (fun a b => pairLe a b = true) := ⟨fun _ _ _ => pairLe_trans⟩

instance {α : Type} : Std.Total (fun a b : Text × α => textLe a.1 b.1 = true) :=
  ⟨fun a b => textLe_total a.1 b.1⟩

instance {α : Type} : IsTrans (Text × α) (fun a b => textLe a.1 b.1 = true) :=
  ⟨fun _ _ _ => textLe_trans⟩

namespace DirTree

variable (t : DirTree)

theorem sorted_perm : t.sorted.Perm (t.entries.map fun e => (joinSlash e.1, e.2)) :=
  perm_insertionSort _ _

theorem sorted_pairwise : t.sorted.Pairwise fun a b => textLe a.1 b.1 = true :=
  pairwise_insertionSort _ _

theorem sorted_nodup : (t.sorted.map Prod.fst).Nodup := by
  rw [(t.sorted_perm.map Prod.fst).nodup_iff, map_map]
  have hpaths := @nodup_paths_below [] t.children t.legal
  apply (List.Nodup.of_map _ hpaths).map_on
  intro e he e' he' heq
  exact inj_on_of_nodup_map hpaths he he' (joinSlash_inj he he' heq)

/-- The text is that of the entries by their paths: no two entries have one path. -/
theorem text_eq (C : Crates) :
    t.text C = hashedText (t.sorted.map fun e => (e.1, describe C e.2)) := by
  have hperm : (byName (walkEach C [] t.children)).Perm
      (t.sorted.map fun e => (e.1, describe C e.2)) := by
    apply ((byName_perm _).trans (walkEach_perm C [] t.children)).trans
    have h := t.sorted_perm.map fun e => (e.1, describe C e.2)
    rw [map_map] at h
    exact h.symm
  have hpairs : (t.sorted.map fun e => (e.1, describe C e.2)).Pairwise
      fun a b => pairLe a b = true := by
    apply pairwise_map.mpr
    apply (t.sorted_pairwise.and (pairwise_map.mp t.sorted_nodup)).imp
    rintro a b ⟨hle, hne⟩
    rw [pairLe, if_neg hne]
    exact hle
  have heq := ((perm_insertionSort _ _).trans hperm).eq_of_pairwise
    (fun _ _ _ _ h h' => pairLe_antisymm h h') (pairwise_insertionSort _ _) hpairs
  exact congrArg hashedText heq

end DirTree

/-! ### What a text determines -/

theorem octal_injective : Function.Injective octal := by
  intro m n h
  have hdigits := congrArg (Nat.ofDigitChars 8 · 0) h
  dsimp only [octal] at hdigits
  rwa [Nat.ofDigitChars_toDigits (by decide) (by decide),
    Nat.ofDigitChars_toDigits (by decide) (by decide)] at hdigits

theorem notMem_octal {c : Char} (hc : c.isDigit = false) (mode : Nat) : c ∉ octal mode := by
  intro h
  rw [Nat.isDigit_of_mem_toDigits (by decide) (by decide) h] at hc
  cases hc

/-- An entry with the newline behind it and the path that follows. -/
def describedThen (C : Crates) (e : Entry) (next : Text) : Text := describe C e ++ '\n' :: next

/-- SHA-256 tells the contents of the two entries apart. -/
def ContentsApart (C : Crates) (e e' : Entry) : Prop :=
  ∀ m content m' content', e = .file m content → e' = .file m' content' →
    C.sha256 content = C.sha256 content' → content = content'

theorem describedThen_dir (C : Crates) (mode : Nat) (next : Text) :
    describedThen C (.dir mode) next = "dir:".toList ++ (octal mode ++ '\n' :: next) := by
  unfold describedThen describe
  exact append_assoc _ _ _

theorem describedThen_symlink (C : Crates) (mode : Nat) (target next : Text) :
    describedThen C (.symlink mode target) next =
      "symlink:".toList ++ (octal mode ++ ':' :: (target ++ '\n' :: next)) := by
  unfold describedThen describe
  generalize "symlink:".toList = label
  simp only [append_assoc, cons_append]

theorem describedThen_file (C : Crates) (mode : Nat) (content : Bytes) (next : Text) :
    describedThen C (.file mode content) next =
      "file:".toList ++ (octal mode ++ ':' :: (sha256Text C content ++ '\n' :: next)) := by
  unfold describedThen describe
  generalize "file:".toList = label
  simp only [append_assoc, cons_append]

/-- The first letter of a description. -/
def Entry.letter : Entry → Char
  | .dir _ => 'd'
  | .symlink _ _ => 's'
  | .file _ _ => 'f'

theorem head?_describedThen (C : Crates) (e : Entry) (next : Text) :
    (describedThen C e next).head? = some e.letter := by
  cases e with
  | dir mode =>
    have hlabel : "dir:".toList.head? = some 'd' := by decide
    rw [describedThen_dir, List.head?_append, hlabel]
    rfl
  | symlink mode target =>
    have hlabel : "symlink:".toList.head? = some 's' := by decide
    rw [describedThen_symlink, List.head?_append, hlabel]
    rfl
  | file mode content =>
    have hlabel : "file:".toList.head? = some 'f' := by decide
    rw [describedThen_file, List.head?_append, hlabel]
    rfl

variable {C : Crates}

theorem letter_eq {e e' : Entry} {next next' : Text}
    (h : describedThen C e next = describedThen C e' next') : e.letter = e'.letter := by
  have hhead := congrArg List.head? h
  rw [head?_describedThen, head?_describedThen] at hhead
  exact Option.some.inj hhead

theorem alike_letter {e e' : Entry} {next next' : Text} (h : Alike next next' e e') :
    e.letter = e'.letter := by
  cases e <;> cases e' <;> first | rfl | exact h.elim

/-- What stands behind a digest is as it was, since digests have one length. -/
theorem sha256Text_append_inj {content content' : Bytes} {next next' : Text}
    (h : C.sha256 content = C.sha256 content' → content = content') :
    sha256Text C content ++ '\n' :: next = sha256Text C content' ++ '\n' :: next' ↔
      content = content' ∧ next = next' := by
  constructor
  · intro heq
    have hlength : (sha256Text C content).length = (sha256Text C content').length := by
      rw [length_sha256Text, length_sha256Text]
    obtain ⟨htext, hrest⟩ := append_inj heq hlength
    exact ⟨h (sha256_of_text htext), (List.cons.inj hrest).2⟩
  · rintro ⟨rfl, rfl⟩
    rfl

theorem describedThen_inj {e e' : Entry} {next next' : Text} (happart : ContentsApart C e e') :
    describedThen C e next = describedThen C e' next' ↔ Alike next next' e e' := by
  by_cases hletter : e.letter = e'.letter
  · have hnewline := @notMem_octal '\n' (by decide)
    have hcolon := @notMem_octal ':' (by decide)
    cases e with
    | dir mode =>
      cases e' with
      | dir mode' =>
        rw [describedThen_dir, describedThen_dir, append_cancel_left_eq,
          PrefixCode.append_sep_inj (hnewline mode) (hnewline mode'), octal_injective.eq_iff]
        rfl
      | symlink mode' target' => cases hletter
      | file mode' content' => cases hletter
    | symlink mode target =>
      cases e' with
      | symlink mode' target' =>
        rw [describedThen_symlink, describedThen_symlink, append_cancel_left_eq,
          PrefixCode.append_sep_inj (hcolon mode) (hcolon mode'), octal_injective.eq_iff]
        rfl
      | dir mode' => cases hletter
      | file mode' content' => cases hletter
    | file mode content =>
      cases e' with
      | file mode' content' =>
        rw [describedThen_file, describedThen_file, append_cancel_left_eq,
          PrefixCode.append_sep_inj (hcolon mode) (hcolon mode'), octal_injective.eq_iff,
          sha256Text_append_inj (happart mode content mode' content' rfl rfl)]
        rfl
      | dir mode' => cases hletter
      | symlink mode' target' => cases hletter
  · exact ⟨fun h => absurd (letter_eq h) hletter, fun h => absurd (alike_letter h) hletter⟩

/-! ### What the digest determines -/

/-- What is hashed after the first path. -/
def afterPath (C : Crates) : List (Text × Entry) → Text
  | [] => []
  | (_, e) :: rest => '\x00' :: (describedThen C e (firstPath rest) ++ afterPath C rest)

theorem hashedText_eq (C : Crates) (l : List (Text × Entry)) :
    hashedText (l.map fun e => (e.1, describe C e.2)) = firstPath l ++ afterPath C l := by
  induction l with
  | nil => rfl
  | cons e l ih =>
    unfold hashedText at ih ⊢
    rw [map_cons, flatMap_cons, ih]
    simp only [firstPath, afterPath, describedThen, append_assoc, cons_append, nil_append]

/-- No NUL in a path or a target. -/
def NulFree (l : List (Text × Entry)) : Prop := ∀ e ∈ l, '\x00' ∉ e.1 ∧ e.2.Legal

theorem NulFree.firstPath {l : List (Text × Entry)} (h : NulFree l) : '\x00' ∉ firstPath l := by
  cases l with
  | nil => exact not_mem_nil
  | cons e l => exact (h e mem_cons_self).1

theorem nul_notMem_sha256Text (C : Crates) (bytes : Bytes) : '\x00' ∉ sha256Text C bytes := by
  have hlabel : '\x00' ∉ "sha256:".toList := by decide
  have hdigits : ∀ n < 16, Nat.digitChar n ≠ '\x00' := by decide
  unfold sha256Text
  generalize "sha256:".toList = label at hlabel ⊢
  intro h
  rcases mem_append.mp h with h | h
  · exact hlabel h
  · have hne : ∀ c ∈ hexEncode (C.sha256 bytes).toList, c ≠ '\x00' := forall_mem_hexEncode hdigits
    exact hne _ h rfl

theorem nul_notMem_describedThen {e : Entry} {next : Text} (he : e.Legal) (hnext : '\x00' ∉ next) :
    '\x00' ∉ describedThen C e next := by
  have hoctal := @notMem_octal '\x00' (by decide)
  cases e with
  | dir mode =>
    rw [describedThen_dir]
    simp [hoctal, hnext]
  | symlink mode target =>
    have htarget : '\x00' ∉ target := he
    rw [describedThen_symlink]
    simp [hoctal, htarget, hnext]
  | file mode content =>
    rw [describedThen_file]
    simp [hoctal, nul_notMem_sha256Text, hnext]

/-- SHA-256 tells the contents of the files of the two lists apart. -/
def ContentsApartIn (C : Crates) (l l' : List (Text × Entry)) : Prop :=
  ∀ e ∈ l, ∀ e' ∈ l', ContentsApart C e.2 e'.2

theorem append_afterPath_inj {l l' : List (Text × Entry)} {x y : Text} (hx : '\x00' ∉ x)
    (hy : '\x00' ∉ y) :
    x ++ afterPath C l = y ++ afterPath C l' ↔ x = y ∧ afterPath C l = afterPath C l' := by
  have hmem (z : Text) (e : Text × Entry) (rest : List (Text × Entry)) :
      '\x00' ∈ z ++ afterPath C (e :: rest) := mem_append_right _ mem_cons_self
  cases l with
  | nil =>
    cases l' with
    | nil => simp [afterPath]
    | cons e' l' =>
      constructor
      · intro h
        have := hmem y e' l'
        rw [← h, afterPath, append_nil] at this
        exact absurd this hx
      · intro h
        cases h.2
  | cons e l =>
    cases l' with
    | nil =>
      constructor
      · intro h
        have := hmem x e l
        rw [h, afterPath, append_nil] at this
        exact absurd this hy
      · intro h
        cases h.2
    | cons e' l' =>
      rw [afterPath, afterPath, PrefixCode.append_sep_inj hx hy, List.cons.injEq]
      exact and_congr_right fun _ => (and_iff_right rfl).symm

/-- The NULs cut the text into the first path and one piece for each entry. -/
theorem afterPath_inj {l l' : List (Text × Entry)} (hl : NulFree l) (hl' : NulFree l')
    (happart : ContentsApartIn C l l') : afterPath C l = afterPath C l' ↔ Aligned l l' := by
  induction l generalizing l' with
  | nil =>
    cases l' with
    | nil => exact ⟨fun _ => trivial, fun _ => rfl⟩
    | cons e' l' => exact ⟨fun h => (nomatch h), False.elim⟩
  | cons e l ih =>
    cases l' with
    | nil => exact ⟨fun h => (nomatch h), False.elim⟩
    | cons e' l' =>
      have htail : NulFree l := fun x hx => hl x (mem_cons_of_mem _ hx)
      have htail' : NulFree l' := fun x hx => hl' x (mem_cons_of_mem _ hx)
      have hrest := ih htail htail' fun x hx y hy =>
        happart x (mem_cons_of_mem _ hx) y (mem_cons_of_mem _ hy)
      have hnul : '\x00' ∉ describedThen C e.2 (firstPath l) :=
        nul_notMem_describedThen (hl e mem_cons_self).2 htail.firstPath
      have hnul' : '\x00' ∉ describedThen C e'.2 (firstPath l') :=
        nul_notMem_describedThen (hl' e' mem_cons_self).2 htail'.firstPath
      rw [afterPath, afterPath, List.cons.injEq, and_iff_right rfl,
        append_afterPath_inj hnul hnul', hrest,
        describedThen_inj (happart e mem_cons_self e' mem_cons_self)]
      rfl

namespace DirTree

theorem mem_sorted {t : DirTree} {x : Text × Entry} :
    x ∈ t.sorted ↔ ∃ e ∈ t.entries, (joinSlash e.1, e.2) = x := by
  rw [t.sorted_perm.mem_iff, mem_map]

theorem nulFree_sorted (t : DirTree) : NulFree t.sorted := by
  intro x hx
  obtain ⟨e, he, rfl⟩ := mem_sorted.mp hx
  refine ⟨?_, legal_of_mem he⟩
  intro hnul
  obtain ⟨name, hname, hmem⟩ := mem_joinSlash hnul (by decide)
  exact (legalName_of_mem he name hname).noNul hmem

theorem contentsApart_sorted {t t' : DirTree} (h : NoCollision C (t.hashed C ++ t'.hashed C)) :
    ContentsApartIn C t.sorted t'.sorted := by
  intro x hx y hy m content m' content' hfile hfile'
  obtain ⟨e, he, rfl⟩ := mem_sorted.mp hx
  obtain ⟨e', he', rfl⟩ := mem_sorted.mp hy
  have hmem {s : DirTree} {e : List Text × Entry} {m : Nat} {content : Bytes} (he : e ∈ s.entries)
      (hfile : e.2 = .file m content) : content ∈ s.hashed C := by
    apply mem_cons_of_mem
    apply mem_filterMap.mpr
    exact ⟨e, he, by rw [hfile]⟩
  exact h content (mem_append_left _ (hmem he hfile)) content'
    (mem_append_right _ (hmem he' hfile'))

theorem sha256OfDirTree_inj {t t' : DirTree} (h : NoCollision C (t.hashed C ++ t'.hashed C)) :
    sha256OfDirTree C t = sha256OfDirTree C t' ↔
      firstPath t.sorted = firstPath t'.sorted ∧ Aligned t.sorted t'.sorted := by
  have htexts : sha256OfDirTree C t = sha256OfDirTree C t' ↔ t.text C = t'.text C := by
    constructor
    · intro heq
      apply utf8_injective
      exact h _ (mem_append_left _ mem_cons_self) _
        (mem_append_right _ mem_cons_self) (sha256_of_text heq)
    · intro heq
      rw [sha256OfDirTree, sha256OfDirTree, heq]
  rw [htexts, text_eq, text_eq, hashedText_eq, hashedText_eq,
    append_afterPath_inj t.nulFree_sorted.firstPath t'.nulFree_sorted.firstPath,
    afterPath_inj t.nulFree_sorted t'.nulFree_sorted (contentsApart_sorted h)]

theorem nodup_entries (t : DirTree) : t.entries.Nodup :=
  .of_map _ (nodup_paths_below t.children t.legal)

theorem mem_entries_of_sorted {t t' : DirTree} (h : t.sorted = t'.sorted) {path : List Text}
    {entry : Entry} (hmem : (path, entry) ∈ t.entries) : (path, entry) ∈ t'.entries := by
  have hsorted := mem_sorted.mpr ⟨_, hmem, rfl⟩
  rw [h] at hsorted
  obtain ⟨e', he', heq⟩ := mem_sorted.mp hsorted
  have hpath := joinSlash_inj he' hmem (congrArg Prod.fst heq)
  have hentry := congrArg Prod.snd heq
  rwa [show e' = (path, entry) from Prod.ext hpath hentry] at he'

/-- The entries by their paths are the tree. -/
theorem same_iff {t t' : DirTree} : t.Same t' ↔ t.sorted = t'.sorted := by
  constructor
  · intro h
    have hentries : t.entries.Perm t'.entries :=
      (perm_ext_iff_of_nodup t.nodup_entries t'.nodup_entries).mpr fun e => h e.1 e.2
    have hperm := (t.sorted_perm.trans (hentries.map _)).trans t'.sorted_perm.symm
    apply hperm.eq_of_pairwise _ t.sorted_pairwise t'.sorted_pairwise
    intro a b ha hb hab hba
    exact inj_on_of_nodup_map t.sorted_nodup ha (hperm.mem_iff.mpr hb)
      (textLe_antisymm hab hba)
  · intro h path entry
    exact ⟨mem_entries_of_sorted h, mem_entries_of_sorted h.symm⟩

theorem aligned_refl (l : List (Text × Entry)) : Aligned l l := by
  induction l with
  | nil => trivial
  | cons e l ih =>
    refine ⟨?_, ih⟩
    cases e.2 with
    | dir mode => exact ⟨rfl, rfl⟩
    | symlink mode target => exact ⟨rfl, rfl⟩
    | file mode content => exact ⟨rfl, rfl, rfl⟩

theorem eq_of_alike {e e' : Entry} {next next' : Text} (he : e.OneLine) (he' : e'.OneLine)
    (h : Alike next next' e e') : e = e' ∧ next = next' := by
  cases e with
  | dir mode =>
    cases e' with
    | dir mode' => exact ⟨by rw [h.1], h.2⟩
    | symlink mode' target' => cases h
    | file mode' content' => cases h
  | symlink mode target =>
    cases e' with
    | symlink mode' target' =>
      obtain ⟨htarget, hnext⟩ := (PrefixCode.append_sep_inj he he').mp h.2
      exact ⟨by rw [h.1, htarget], hnext⟩
    | dir mode' => cases h
    | file mode' content' => cases h
  | file mode content =>
    cases e' with
    | file mode' content' => exact ⟨by rw [h.1, h.2.1], h.2.2⟩
    | dir mode' => cases h
    | symlink mode' target' => cases h

theorem eq_of_aligned {l l' : List (Text × Entry)} (hl : ∀ e ∈ l, e.2.OneLine)
    (hl' : ∀ e ∈ l', e.2.OneLine) (hfirst : firstPath l = firstPath l') (h : Aligned l l') :
    l = l' := by
  induction l generalizing l' with
  | nil =>
    cases l' with
    | nil => rfl
    | cons e' l' => cases h
  | cons e l ih =>
    cases l' with
    | nil => cases h
    | cons e' l' =>
      rw [forall_mem_cons] at hl hl'
      obtain ⟨hentry, hnext⟩ := eq_of_alike hl.1 hl'.1 h.1
      rw [ih hl.2 hl'.2 hnext h.2, show e = e' from Prod.ext hfirst hentry]

/-- Trees whose links have no newline in their targets are never regrouped. -/
theorem not_regrouped {t t' : DirTree} (h : ∀ e ∈ t.entries, e.2.OneLine)
    (h' : ∀ e ∈ t'.entries, e.2.OneLine) : ¬ Regrouped t t' := by
  rintro ⟨hne, hfirst, haligned⟩
  have hsorted {s : DirTree} (hs : ∀ e ∈ s.entries, e.2.OneLine) : ∀ x ∈ s.sorted, x.2.OneLine := by
    intro x hx
    obtain ⟨e, he, rfl⟩ := mem_sorted.mp hx
    exact hs e he
  exact hne (eq_of_aligned (hsorted h) (hsorted h') hfirst haligned)

/-- The digests of two trees agree exactly if the trees do, unless the trees are regrouped. -/
theorem sha256OfDirTree_iff_same (C : Crates) (t t' : DirTree)
    (hcollision : NoCollision C (t.hashed C ++ t'.hashed C)) :
    (sha256OfDirTree C t = sha256OfDirTree C t' ↔ t.Same t') ↔ ¬ Regrouped t t' := by
  rw [sha256OfDirTree_inj hcollision, same_iff]
  constructor
  · intro h hregrouped
    exact hregrouped.1 (h.mp hregrouped.2)
  · intro h
    constructor
    · intro hdigest
      by_contra hne
      exact h ⟨hne, hdigest⟩
    · intro heq
      rw [heq]
      exact ⟨rfl, aligned_refl _⟩

/-! ### A link that is turned -/

def linkTree (target : Text) (h : '\x00' ∉ target) : DirTree where
  children := [("a".toList, .symlink 511 target)]
  legal := ⟨by decide, not_mem_nil, h, trivial⟩

/-- SHA-256 on the texts of the two links. -/
def linkCrates : Crates where
  sha256 bytes :=
    if bytes = utf8 "a\x00symlink:777:t\n".toList then
      #v[108, 222, 144, 136, 205, 245, 125, 125, 246, 69, 143, 98, 255, 158, 50, 156, 246, 202, 48,
      194, 23, 23, 166, 210, 246, 137, 185, 6, 215, 56, 77, 180]
    else if bytes = utf8 "a\x00symlink:777:u\n".toList then
      #v[231, 217, 17, 251, 220, 147, 25, 11, 235, 18, 198, 177, 56, 66, 149, 22, 93, 162, 118,
      244, 66, 95, 24, 228, 128, 17, 215, 234, 124, 76, 1, 104]
    else Vector.replicate 32 0
  parseManifest _ := .error "expected value at line 1 column 1".toList
  debug t := ['"'] ++ t ++ ['"']

theorem sha256OfDirTree_iff_same_link :
    sha256OfDirTree linkCrates (linkTree "t".toList (by decide)) ≠
      sha256OfDirTree linkCrates (linkTree "u".toList (by decide)) := by
  have hcollision : NoCollision linkCrates
      ((linkTree "t".toList (by decide)).hashed linkCrates ++
        (linkTree "u".toList (by decide)).hashed linkCrates) := by
    unfold NoCollision
    decide +kernel
  have hsorted (target : Text) (h : '\x00' ∉ target) :
      (linkTree target h).sorted = [("a".toList, .symlink 511 target)] := rfl
  have honeLine {target : Text} (h : '\x00' ∉ target) (hline : '\n' ∉ target) :
      ∀ e ∈ (linkTree target h).entries, e.2.OneLine := by
    intro e he
    rw [mem_singleton.mp he]
    exact hline
  have hlines : ¬ Regrouped (linkTree "t".toList (by decide)) (linkTree "u".toList (by decide)) :=
    not_regrouped (honeLine _ (by decide)) (honeLine _ (by decide))
  intro hdigest
  have hsame := ((sha256OfDirTree_iff_same linkCrates _ _ hcollision).mpr hlines).mp hdigest
  rw [same_iff, hsorted, hsorted] at hsame
  revert hsame
  decide

/-! ### A regrouped tree -/

/-- A link and a file whose name has two lines. -/
def shortTarget : DirTree where
  children := [("a".toList, .symlink 511 "t".toList), ("b\nc".toList, .file 420 [])]
  legal := by
    simp only [LegalChildren, Node.Legal]
    decide

/-- The first line of that name is in the link's target. -/
def longTarget : DirTree where
  children := [("c".toList, .file 420 []), ("a".toList, .symlink 511 "t\nb".toList)]
  legal := by
    simp only [LegalChildren, Node.Legal]
    decide

theorem same_digest_not_same :
    ¬ shortTarget.Same longTarget ∧
      ∀ C, sha256OfDirTree C shortTarget = sha256OfDirTree C longTarget := by
  have hshort : shortTarget.sorted =
      [("a".toList, .symlink 511 "t".toList), ("b\nc".toList, .file 420 [])] := by decide
  have hlong : longTarget.sorted =
      [("a".toList, .symlink 511 "t\nb".toList), ("c".toList, .file 420 [])] := by decide
  constructor
  · rw [same_iff, hshort, hlong]
    decide
  · intro C
    rw [sha256OfDirTree, sha256OfDirTree, text_eq, text_eq, hshort, hlong]
    rfl

end DirTree

end AgentMail.Doctor
