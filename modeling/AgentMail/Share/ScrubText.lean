import AgentMail.Share.Attachments

/-!
# What scrubbing leaves

No pattern but the one of URLs with credentials matches a scrubbed text, and that one does not either
where no later redaction takes away what keeps a URL from being read as one with credentials.
-/

namespace AgentMail.Share

open Base Lib Lib.Regex List

variable {W : WordChars}

/-! ### Patterns that settle -/

/-- A pattern that cannot reach into a mark and does not look around. -/
structure Simple (r : Regex Char) : Prop where
  avoids : r.AvoidsMark redacted
  free : r.edgeFree = true

def isSimple (r : Regex Char) : Bool :=
  !r.accepts redacted.opening && !r.accepts redacted.closing && !r.within redacted.letters &&
    r.edgeFree

variable {r : Regex Char}

theorem simple_of_isSimple (h : isSimple r = true) : Simple r := by
  simp only [isSimple, Bool.and_eq_true, Bool.not_eq_true'] at h
  exact ⟨⟨h.1.1.1, h.1.1.2, h.1.2⟩, h.2⟩

/-- Once its matches are replaced, the pattern does not match again, whatever is replaced later. -/
structure Settles (r : Regex Char) : Prop where
  within_nil : r.within [] = false
  after : ∀ {t out n}, r.Scanned redacted.text ⟨none, t⟩ out n → ¬ r.Occurs ⟨none, out⟩
  stays : ∀ {r' t out n}, Regex.Scanned r' redacted.text ⟨none, t⟩ out n →
    ¬ r.Occurs ⟨none, t⟩ → ¬ r.Occurs ⟨none, out⟩

theorem Simple.settles (hr : Simple r) : Settles r where
  within_nil := hr.avoids.within_nil
  after h := hr.avoids.not_occurs_after hr.free h
  stays h hnot hoccurs := hnot (hr.avoids.occurs_before hr.free h hoccurs)

theorem pemKey_ends : Encloses redacted (pemLine "-----BEGIN") (fun _ => true)
    (pemLine "-----END") where
  anything _ := rfl
  atFirst := (simple_of_isSimple (by decide)).avoids
  atLast := (simple_of_isSimple (by decide)).avoids
  freeFirst := by decide
  freeLast := by decide

theorem pemKey_settles : Settles pemKey where
  within_nil := by decide
  after h := block_not_occurs_after pemKey_ends h
  stays h hnot hoccurs := hnot (block_occurs_before pemKey_ends h hoccurs)

theorem assignment_simple : Simple assignment := simple_of_isSimple (by decide)

theorem not_isWord_closing (W : WordChars) : W.isWord redacted.closing = false := by
  cases h : W.isWord redacted.closing with
  | false => rfl
  | true =>
    have hvalue := W.value _ h
    exact absurd hvalue (by decide)

/-- The value of an assignment goes on as long as there are characters for it. -/
theorem head?_ends_assignment {a b : Lib.Place Char} (h : (assignment.ends a).head? = some b) :
    b.rest.head?.any isValue = false := by
  iterate 7 obtain ⟨_, _, h⟩ := head?_ends_seq h
  exact head?_ends_atLeast h

theorem secretAssignment_not_occurs_after {t out : Text} {n : Nat}
    (h : (secretAssignment W).Scanned redacted.text ⟨none, t⟩ out n) :
    ¬ (secretAssignment W).Occurs ⟨none, out⟩ :=
  edge_not_occurs_after assignment_simple.avoids assignment_simple.free W.value
    (not_isWord_closing W) (fun _ _ => head?_ends_assignment) h rfl

/-! ### The loop over the patterns -/

def scrubWith (patterns : List (Regex Char)) (t : Text) : Text :=
  (patterns.foldl scrubStep (t, 0)).1

theorem fst_scrubStep (hr : r.within [] = false) (state : Text × Nat) :
    (scrubStep state r).1 = r.replaceAll redacted.text state.1 := by
  rw [scrubStep]
  split
  · rfl
  · next hzero =>
    have hnone := (findCount_eq_zero hr).mp (Nat.eq_zero_of_not_pos hzero)
    exact (replaceAll_of_not_occurs hr _ hnone).symm

theorem fst_foldl_scrubStep (patterns : List (Regex Char)) (state : Text × Nat) :
    (patterns.foldl scrubStep state).1 = scrubWith patterns state.1 := by
  have hstep (state : Text × Nat) (r : Regex Char) :
      (scrubStep state r).1 = (scrubStep (state.1, 0) r).1 := by
    rw [scrubStep, scrubStep]
    split <;> rfl
  induction patterns generalizing state with
  | nil => rfl
  | cons r patterns ih =>
    rw [scrubWith, foldl_cons, foldl_cons, ih, ih, hstep]

theorem scrubWith_cons (r : Regex Char) (patterns : List (Regex Char)) (t : Text) :
    scrubWith (r :: patterns) t = scrubWith patterns (scrubStep (t, 0) r).1 := by
  rw [scrubWith, foldl_cons, fst_foldl_scrubStep]

@[simp] theorem scrubWith_nil (t : Text) : scrubWith [] t = t := rfl

theorem scrubWith_append (patterns patterns' : List (Regex Char)) (t : Text) :
    scrubWith (patterns ++ patterns') t = scrubWith patterns' (scrubWith patterns t) := by
  rw [scrubWith, foldl_append, fst_foldl_scrubStep]
  rfl

theorem scanned_scrubStep (hr : r.within [] = false) (t : Text) :
    ∃ n, r.Scanned redacted.text ⟨none, t⟩ (scrubStep (t, 0) r).1 n := by
  rw [fst_scrubStep hr]
  exact ⟨_, scanned_scan hr redacted.text (Nat.le_refl _)⟩

theorem Settles.stays_scrubWith (hr : Settles r) {patterns : List (Regex Char)}
    (hpatterns : ∀ p ∈ patterns, p.within [] = false) {t : Text} (h : ¬ r.Occurs ⟨none, t⟩) :
    ¬ r.Occurs ⟨none, scrubWith patterns t⟩ := by
  induction patterns generalizing t with
  | nil => exact h
  | cons p patterns ih =>
    rw [forall_mem_cons] at hpatterns
    obtain ⟨n, hscan⟩ := scanned_scrubStep hpatterns.1 t
    rw [scrubWith_cons]
    exact ih hpatterns.2 (hr.stays hscan h)

theorem Settles.not_occurs_scrubWith (hr : Settles r) {patterns : List (Regex Char)}
    (hpatterns : ∀ p ∈ patterns, p.within [] = false) (hmem : r ∈ patterns) (t : Text) :
    ¬ r.Occurs ⟨none, scrubWith patterns t⟩ := by
  induction patterns generalizing t with
  | nil => cases hmem
  | cons p patterns ih =>
    rw [forall_mem_cons] at hpatterns
    obtain ⟨n, hscan⟩ := scanned_scrubStep hpatterns.1 t
    rw [scrubWith_cons]
    rcases mem_cons.mp hmem with rfl | hrest
    · exact hr.stays_scrubWith hpatterns.2 (hr.after hscan)
    · exact ih hpatterns.2 hrest _

/-! ### The patterns in their order -/

/-- The patterns before the one of URLs with credentials. -/
def earlierPatterns : List (Regex Char) :=
  [githubToken, githubPat, slackToken, anthropicKey, stripeKey, openaiKey, bearerToken]

/-- The patterns between it and the one of assignments. -/
def laterPatterns : List (Regex Char) :=
  [envReference, jwt, awsKey, azureKey, gcpKeyId, googleKey, npmToken, pemKey, gitlabToken]

theorem secretPatterns_eq (W : WordChars) : secretPatterns W =
    earlierPatterns ++ credentialUrl :: (laterPatterns ++ [secretAssignment W]) := rfl

theorem simple_of_earlier : ∀ r ∈ earlierPatterns, Simple r := by
  have hall : earlierPatterns.all isSimple = true := by decide
  intro r hr
  exact simple_of_isSimple (all_eq_true.mp hall r hr)

theorem simple_of_later : ∀ r ∈ laterPatterns, r = pemKey ∨ Simple r := by
  have hall : [envReference, jwt, awsKey, azureKey, gcpKeyId, googleKey, npmToken].all isSimple =
      true := by decide
  have hlast : isSimple gitlabToken = true := by decide
  intro r hr
  have hsplit : r ∈ [envReference, jwt, awsKey, azureKey, gcpKeyId, googleKey, npmToken] ++
      [pemKey, gitlabToken] := hr
  rcases mem_append.mp hsplit with hfront | hback
  · exact Or.inr (simple_of_isSimple (all_eq_true.mp hall r hfront))
  · rcases mem_cons.mp hback with hpem | hgitlab
    · exact Or.inl hpem
    · rw [mem_singleton.mp hgitlab]
      exact Or.inr (simple_of_isSimple hlast)

theorem settles_of_later (hr : r ∈ laterPatterns) : Settles r := by
  rcases simple_of_later r hr with rfl | hsimple
  · exact pemKey_settles
  · exact hsimple.settles

theorem credentialUrl_within_nil : credentialUrl.within [] = false := by decide

theorem within_nil_of_secretPatterns : ∀ r ∈ secretPatterns W, r.within [] = false := by
  rw [secretPatterns_eq, forall_mem_append, forall_mem_cons, forall_mem_append,
    forall_mem_singleton]
  refine ⟨fun r hr => (simple_of_earlier r hr).avoids.within_nil, credentialUrl_within_nil,
    fun r hr => (settles_of_later hr).within_nil, ?_⟩
  rw [secretAssignment, within, assignment_simple.avoids.within_nil, Bool.and_false]

/-- No other pattern matches a scrubbed text. -/
theorem not_occurs_scrubText (input : Text) :
    ∀ r ∈ earlierPatterns ++ (laterPatterns ++ [secretAssignment W]),
      ¬ r.Occurs ⟨none, (scrubText W input).1⟩ := by
  have hwithin := within_nil_of_secretPatterns (W := W)
  have hsettles (r : Regex Char) (hr : Settles r) (hmem : r ∈ secretPatterns W) :
      ¬ r.Occurs ⟨none, (scrubText W input).1⟩ := hr.not_occurs_scrubWith hwithin hmem input
  intro r hr
  rcases mem_append.mp hr with hearlier | hr
  · exact hsettles r (simple_of_earlier r hearlier).settles
      (by rw [secretPatterns_eq]; exact mem_append_left _ hearlier)
  rcases mem_append.mp hr with hlater | hlast
  · exact hsettles r (settles_of_later hlater)
      (by rw [secretPatterns_eq]; simp [hlater])
  · rw [mem_singleton.mp hlast]
    have hsplit : secretPatterns W =
        (earlierPatterns ++ credentialUrl :: laterPatterns) ++ [secretAssignment W] := rfl
    have htext : (scrubText W input).1 = scrubWith (secretPatterns W) input := rfl
    obtain ⟨n, hscan⟩ := scanned_scrubStep (hwithin (secretAssignment W) (by rw [hsplit]; simp))
      (scrubWith (earlierPatterns ++ credentialUrl :: laterPatterns) input)
    rw [htext, hsplit, scrubWith_append, scrubWith_cons, scrubWith_nil]
    exact secretAssignment_not_occurs_after hscan

/-- A text in which nothing is found. -/
def Clean (W : WordChars) (t : Text) : Prop := ∀ r ∈ secretPatterns W, r.findCount t = 0

theorem scrubText_of_clean {t : Text} (h : Clean W t) : scrubText W t = (t, 0) := by
  have hfold (patterns : List (Regex Char)) (hpatterns : ∀ r ∈ patterns, r.findCount t = 0) :
      patterns.foldl scrubStep (t, 0) = (t, 0) := by
    induction patterns with
    | nil => rfl
    | cons r patterns ih =>
      rw [forall_mem_cons] at hpatterns
      rw [foldl_cons, scrubStep]
      dsimp only
      rw [hpatterns.1, if_neg (Nat.lt_irrefl 0)]
      exact ih hpatterns.2
  exact hfold _ h

theorem clean_scrubText {input : Text}
    (h : ¬ credentialUrl.Occurs ⟨none, (scrubText W input).1⟩) : Clean W (scrubText W input).1 := by
  intro r hr
  rw [findCount_eq_zero (within_nil_of_secretPatterns r hr)]
  rw [secretPatterns_eq, mem_append, mem_cons] at hr
  rcases hr with hearlier | rfl | hlater
  · exact not_occurs_scrubText input r (mem_append_left _ hearlier)
  · exact h
  · exact not_occurs_scrubText input r (mem_append_right _ hlater)

end AgentMail.Share
