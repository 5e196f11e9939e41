import AgentMail.Lib.Pieces
import AgentMail.Share.ScrubText

/-!
# URLs that scrubbing completes

When a redaction takes away what kept a URL from being read as one with credentials, the scrubbed
text is not clean; nothing else makes it so.
-/

namespace AgentMail.Share

open Base Lib Lib.Regex Lib.Piece List

variable {W : WordChars}

/-- What has replaced a part of a text. -/
inductive Redaction where
  | earlier (r : Regex Char)
  | credentials
  | later (r : Regex Char)
  | assignment

/-- A part that a pattern before the one of URLs matches. -/
def Earlier (k : Redaction) (w : Text) : Prop :=
  ∃ r ∈ earlierPatterns, k = .earlier r ∧ ∃ prev next, r.Matches prev w next

/-- A user name or a password: what is kept of it can stand in one, the rest was replaced. -/
structure Credential (fits : Redaction → Text → Prop) (pieces : List (Piece Char Redaction)) : Prop
    where
  ne_nil : pieces ≠ []
  kept : ∀ c, .kept c ∈ pieces → isCredential c = true
  gone : Valid fits pieces

/-- `scheme://user:password@`. -/
def Url (scheme : Text) (user password : List (Piece Char Redaction)) :
    List (Piece Char Redaction) :=
  plain scheme ++ (user ++ .kept ':' :: password ++ [.kept '@'])

/-- A part that one of the patterns matches, with earlier redactions in it for a URL. -/
def Redactable (W : WordChars) (k : Redaction) (w : Text) : Prop :=
  match k with
  | .earlier _ => Earlier k w
  | .credentials => ∃ scheme user password, urlScheme.Matches none scheme none ∧
      Credential Earlier user ∧ Credential Earlier password ∧ w = source (Url scheme user password)
  | .later r => r ∈ laterPatterns ∧ ∃ prev next, r.Matches prev w next
  | .assignment => ∃ prev next, (secretAssignment W).Matches prev w next

def Redaction.isEarlier : Redaction → Bool
  | .earlier _ => true
  | _ => false

/-- A URL of which other redactions take away all that keeps it from being read as one with
credentials, some of them only after those were looked for. The value of an assignment is complete. -/
def Reopens (W : WordChars) (t : Text) : Prop :=
  ∃ before scheme user password after, t = before ++ source (Url scheme user password) ++ after ∧
      urlScheme.Matches none scheme none ∧
      Credential (Redactable W) user ∧ Credential (Redactable W) password ∧
      (∃ k w, .gone k w ∈ user ++ password ∧ k.isEarlier = false ∧ ∃ c ∈ w, isCredential c = false) ∧
      ∀ front w c back, Url scheme user password = front ++ .gone .assignment w :: .kept c :: back →
        isValue c = false


/-! ### Where a URL with credentials stands -/

theorem urlScheme_simple : Simple urlScheme := simple_of_isSimple (by decide)

theorem lit_singleton {t : String} {d : Char} (ht : t.toList = [d]) {prev next : Option Char}
    {w : Text} : (lit t).Matches prev w next ↔ w = [d] := by
  rw [lit, ht]
  constructor
  · intro h
    obtain ⟨x, v, rfl, hx, hv⟩ := matches_seq.mp h
    obtain ⟨c, rfl, hc⟩ := matches_one.mp hx
    cases hv
    rw [beq_iff_eq.mp hc]
    rfl
  · rintro rfl
    exact matches_seq.mpr ⟨[d], [], rfl, .one (beq_self_eq_true d), .empty⟩

theorem matches_userAndPassword {prev next : Option Char} {x : Text} :
    userAndPassword.Matches prev x next ↔ ∃ user password : Text, x = user ++ ':' :: password ∧
      user ≠ [] ∧ password ≠ [] ∧ (∀ c ∈ user, isCredential c = true) ∧
      ∀ c ∈ password, isCredential c = true := by
  have hpos (w : Text) : 1 ≤ w.length ↔ w ≠ [] := length_pos_iff
  have hcat : userAndPassword = .seq ((Regex.one isCredential).atLeast 1)
      (.seq (lit ":") ((Regex.one isCredential).atLeast 1)) := rfl
  rw [hcat, matches_seq]
  constructor
  · rintro ⟨user, y, rfl, huser, hy⟩
    obtain ⟨colon, password, rfl, hcolon, hpassword⟩ := matches_seq.mp hy
    rw [lit_singleton rfl] at hcolon
    rw [matches_atLeast_one, hpos] at huser hpassword
    exact ⟨user, password, by rw [hcolon]; rfl, huser.1, hpassword.1, huser.2, hpassword.2⟩
  · rintro ⟨user, password, rfl, huser, hpassword, huserAll, hpasswordAll⟩
    refine ⟨user, ':' :: password, rfl, matches_atLeast_one.mpr ⟨(hpos user).mpr huser, huserAll⟩,
      matches_seq.mpr ⟨[':'], password, rfl, (lit_singleton rfl).mpr rfl, ?_⟩⟩
    exact matches_atLeast_one.mpr ⟨(hpos password).mpr hpassword, hpasswordAll⟩

theorem at_simple : Simple (lit "@") := simple_of_isSimple (by decide)

theorem colon_simple : Simple (lit ":") := simple_of_isSimple (by decide)

theorem matches_credentialUrl {prev next : Option Char} {x : Text} :
    credentialUrl.Matches prev x next ↔ ∃ scheme y, x = scheme ++ (y ++ ['@']) ∧
      urlScheme.Matches none scheme none ∧ userAndPassword.Matches none y none := by
  have hcat : credentialUrl = .seq urlScheme (.seq userAndPassword (lit "@")) := rfl
  have hfree : userAndPassword.edgeFree = true := by decide
  rw [hcat, matches_seq]
  constructor
  · rintro ⟨scheme, z, rfl, hscheme, hz⟩
    obtain ⟨y, w, rfl, hy, hw⟩ := matches_seq.mp hz
    rw [lit_singleton rfl] at hw
    subst hw
    exact ⟨scheme, y, rfl, hscheme.anywhere urlScheme_simple.free _ _, hy.anywhere hfree _ _⟩
  · rintro ⟨scheme, y, rfl, hscheme, hy⟩
    refine ⟨scheme, y ++ ['@'], rfl, hscheme.anywhere urlScheme_simple.free _ _,
      matches_seq.mpr ⟨y, ['@'], rfl, hy.anywhere hfree _ _, (lit_singleton rfl).mpr rfl⟩⟩

variable {pieces user password : List (Piece Char Redaction)}

/-- What is kept of a user name or password. -/
theorem isCredential_of_shown (h : ∀ c ∈ shown redacted pieces, isCredential c = true) :
    ∀ c, .kept c ∈ pieces → isCredential c = true :=
  fun c hc => h c (mem_flatMap.mpr ⟨_, hc, mem_singleton_self c⟩)

theorem shown_of_isCredential (h : ∀ c, .kept c ∈ pieces → isCredential c = true) :
    ∀ c ∈ shown redacted pieces, isCredential c = true := by
  have hmark : ∀ c ∈ redacted.text, isCredential c = true := by decide
  intro c hc
  obtain ⟨p, hp, hface⟩ := mem_flatMap.mp hc
  cases p with
  | kept d =>
    rw [mem_singleton.mp hface]
    exact h d hp
  | gone k w => exact hmark c hface

theorem shown_ne_nil (h : pieces ≠ []) : shown redacted pieces ≠ [] := by
  cases pieces with
  | nil => exact absurd rfl h
  | cons p pieces =>
    cases p with
    | kept c => exact cons_ne_nil _ _
    | gone k w => exact cons_ne_nil _ _

/-- A URL with credentials begins and ends between two pieces. -/
theorem split_url {prev next : Option Char} {before x after : Text}
    (h : credentialUrl.Matches prev x next)
    (hshown : shown redacted pieces = before ++ (x ++ after)) :
    ∃ front scheme user password back, pieces = front ++ Url scheme user password ++ back ∧
      shown redacted front = before ∧ shown redacted back = after ∧
      urlScheme.Matches none scheme none ∧ user ≠ [] ∧ password ≠ [] ∧
      (∀ c, .kept c ∈ user → isCredential c = true) ∧
      ∀ c, .kept c ∈ password → isCredential c = true := by
  obtain ⟨scheme, y, rfl, hscheme, hy⟩ := matches_credentialUrl.mp h
  obtain ⟨u, p, rfl, hu, hp, huAll, hpAll⟩ := matches_userAndPassword.mp hy
  have hat : (lit "@").Matches none ['@'] none := (lit_singleton rfl).mpr rfl
  have hcolon : (lit ":").Matches none [':'] none := (lit_singleton rfl).mpr rfl
  rw [append_assoc] at hshown
  obtain ⟨front, others, rfl, hfront, hothers⟩ :=
    split_shown urlScheme_simple.avoids hscheme hshown
  rw [← append_assoc] at hothers
  obtain ⟨middle, back, rfl, hmiddle, hback⟩ :=
    split_between urlScheme_simple.avoids at_simple.avoids hscheme hat hothers
  have hmiddle' : shown redacted middle = u ++ ([':'] ++ p) := hmiddle
  obtain ⟨user, others, rfl, huser, hothers'⟩ :=
    split_shown colon_simple.avoids hcolon hmiddle'
  obtain ⟨password, rfl, hpassword⟩ :=
    split_plain (colon_simple.avoids.not_mem_opening hcolon) hothers'
  refine ⟨front, scheme, user, password, back, ?_, hfront, hback, hscheme, ?_, ?_, ?_, ?_⟩
  · rw [Url]
    simp [plain]
  · rintro rfl
    exact hu huser.symm
  · rintro rfl
    exact hp hpassword.symm
  · exact isCredential_of_shown (by rwa [huser])
  · exact isCredential_of_shown (by rwa [hpassword])

theorem matches_shown_url {scheme : Text} (hscheme : urlScheme.Matches none scheme none)
    (huser : user ≠ []) (hpassword : password ≠ [])
    (huserAll : ∀ c, .kept c ∈ user → isCredential c = true)
    (hpasswordAll : ∀ c, .kept c ∈ password → isCredential c = true) (prev next : Option Char) :
    credentialUrl.Matches prev (shown redacted (Url scheme user password)) next := by
  refine matches_credentialUrl.mpr ⟨scheme, shown redacted user ++ ':' :: shown redacted password,
    ?_, hscheme, ?_⟩
  · rw [Url]
    simp [face]
  · exact matches_userAndPassword.mpr ⟨_, _, rfl, shown_ne_nil huser, shown_ne_nil hpassword,
      shown_of_isCredential huserAll, shown_of_isCredential hpasswordAll⟩

/-! ### The parts that are replaced -/

theorem eq_nil_of_shown (h : shown redacted pieces = []) : pieces = [] := by
  by_contra hne
  exact shown_ne_nil hne h

variable {r : Regex Char}

/-- A pattern that avoids the mark replaces what was kept. -/
theorem source_of_avoids (hr : r.AvoidsMark redacted) {prev next : Option Char}
    (h : r.Matches prev (shown redacted pieces) next) : source pieces = shown redacted pieces := by
  have hshown : shown redacted pieces = shown redacted pieces ++ [] := (append_nil _).symm
  obtain ⟨others, hpieces, hothers⟩ := split_plain (hr.not_mem_opening h) hshown
  rw [eq_nil_of_shown hothers, append_nil] at hpieces
  rw [hpieces, source_plain, shown_plain]

theorem earlier_of_matches (hr : r ∈ earlierPatterns) {prev next : Option Char}
    (h : r.Matches prev (shown redacted pieces) next) : Earlier (.earlier r) (source pieces) := by
  rw [source_of_avoids (simple_of_earlier r hr).avoids h]
  exact ⟨r, hr, rfl, prev, next, h⟩

theorem pemKey_matches_source {prev next : Option Char}
    (h : pemKey.Matches prev (shown redacted pieces) next) :
    pemKey.Matches prev (source pieces) next := by
  have hends := pemKey_ends
  obtain ⟨w, y, v, hx, hw, hv⟩ := (matches_block hends.anything).mp h
  have hshown : shown redacted pieces = w ++ (y ++ v) ++ [] := by rw [hx, append_nil]
  obtain ⟨middle, others, hpieces, _, hothers⟩ :=
    split_between hends.atFirst hends.atLast hw hv hshown
  rw [eq_nil_of_shown hothers, append_nil] at hpieces
  rw [hpieces, source_append, source_append, source_plain, source_plain]
  exact (matches_block hends.anything).mpr ⟨w, source middle, v, rfl,
    hw.anywhere hends.freeFirst _ _, hv.anywhere hends.freeLast _ _⟩

theorem later_of_matches (hr : r ∈ laterPatterns) {prev next : Option Char}
    (h : r.Matches prev (shown redacted pieces) next) :
    Redactable W (.later r) (source pieces) := by
  refine ⟨hr, prev, next, ?_⟩
  rcases simple_of_later r hr with rfl | hsimple
  · exact pemKey_matches_source h
  · rwa [source_of_avoids hsimple.avoids h]

theorem credentials_of_matches {prev next : Option Char} (hvalid : Valid Earlier pieces)
    (h : credentialUrl.Matches prev (shown redacted pieces) next) :
    Redactable W .credentials (source pieces) := by
  have hshown : shown redacted pieces = [] ++ (shown redacted pieces ++ []) := by simp
  obtain ⟨front, scheme, user, password, back, hpieces, hfront, hback, hscheme, huser, hpassword,
    huserAll, hpasswordAll⟩ := split_url h hshown
  rw [eq_nil_of_shown hfront, eq_nil_of_shown hback, nil_append, append_nil] at hpieces
  have hparts (k : Redaction) (w : Text) (hw : .gone k w ∈ user ++ password) : Earlier k w := by
    apply hvalid k w
    rw [hpieces, Url]
    rw [mem_append] at hw
    simp only [mem_append, mem_cons]
    tauto
  refine ⟨scheme, user, password, hscheme, ⟨huser, huserAll, ?_⟩, ⟨hpassword, hpasswordAll, ?_⟩,
    by rw [hpieces]⟩
  · exact fun k w hw => hparts k w (mem_append_left _ hw)
  · exact fun k w hw => hparts k w (mem_append_right _ hw)

theorem secretAssignment_avoids (W : WordChars) : (secretAssignment W).AvoidsMark redacted :=
  assignment_simple.avoids.edge

theorem assignment_of_matches {prev next : Option Char}
    (h : (secretAssignment W).Matches prev (shown redacted pieces) next) :
    Redactable W .assignment (source pieces) := by
  rw [source_of_avoids (secretAssignment_avoids W) h]
  exact ⟨prev, next, h⟩

/-! ### The pieces of a scrubbed text -/

theorem aligned_of_later (hr : r ∈ laterPatterns) : Aligned.{0, 0} redacted r := by
  rcases simple_of_later r hr with rfl | hsimple
  · exact aligned_between pemKey_ends.atFirst pemKey_ends.atLast
  · exact aligned_of_avoids hsimple.avoids

theorem credentialUrl_aligned : Aligned.{0, 0} redacted credentialUrl :=
  aligned_between urlScheme_simple.avoids at_simple.avoids

/-- The pieces after some patterns in turn. -/
theorem exists_coarser {patterns : List (Regex Char)} (tag : Regex Char → Redaction)
    (late : Redaction → Prop) {fits : Redaction → Text → Prop}
    (haligned : ∀ r ∈ patterns, Aligned.{0, 0} redacted r) (hlate : ∀ r ∈ patterns, late (tag r))
    (hfits : ∀ r ∈ patterns, ∀ (part : List (Piece Char Redaction)) (prev next : Option Char),
      r.Matches prev (shown redacted part) next → fits (tag r) (source part))
    {x : List (Piece Char Redaction)} (hx : Valid fits x) :
    ∃ y, Coarser late x y ∧ Valid fits y ∧
      shown redacted y = scrubWith patterns (shown redacted x) := by
  induction patterns generalizing x with
  | nil => exact ⟨x, Coarser.refl late x, hx, rfl⟩
  | cons r patterns ih =>
    rw [forall_mem_cons] at haligned hlate hfits
    obtain ⟨n, hscan⟩ := scanned_scrubStep haligned.1.within_nil (shown redacted x)
    obtain ⟨y, hswept, hshown⟩ := exists_swept haligned.1 (tag r) hscan
    have hy : Valid fits y := hswept.valid (fun _ _ h => h)
      (fun part prev next _ => hfits.1 part prev next) hx
    obtain ⟨z, hcoarser, hz, hshownz⟩ := ih haligned.2 hlate.2 hfits.2 hy
    refine ⟨z, (hswept.coarser.mono ?_).trans hcoarser, hz, ?_⟩
    · rintro k rfl
      exact hlate.1
    · rw [hshownz, hshown, scrubWith_cons]

/-- The pieces before and after the URLs and the assignments are looked for. -/
structure Stages (W : WordChars) (input : Text) (x y z f : List (Piece Char Redaction)) : Prop where
  source_eq : source f = input
  shown_eq : shown redacted f = (scrubText W input).1
  urls : Swept redacted credentialUrl .credentials none x y
  between : Coarser (fun k => k.isEarlier = false) y z
  assignments : Swept redacted (secretAssignment W) .assignment none z f
  fresh : ∀ w, .gone .assignment w ∉ z
  valid : Valid (Redactable W) f

/-- What is replaced before the assignments. -/
def Settled (W : WordChars) (k : Redaction) (w : Text) : Prop := Redactable W k w ∧ k ≠ .assignment

theorem settled_of_earlier {k : Redaction} {w : Text} (h : Earlier k w) : Settled W k w := by
  have hkeep := h
  obtain ⟨r, _, rfl, _⟩ := h
  exact ⟨hkeep, fun h => by cases h⟩

theorem exists_stages (W : WordChars) (input : Text) : ∃ x y z f, Stages W input x y z f := by
  have hplain : Valid Earlier (plain input : List (Piece Char Redaction)) := by
    intro k w hw
    obtain ⟨c, _, hc⟩ := mem_map.mp hw
    cases hc
  obtain ⟨x, hearlier, hx, hshownx⟩ := exists_coarser .earlier (fun _ => True)
    (fun r hr => aligned_of_avoids (simple_of_earlier r hr).avoids)
    (fun _ _ => trivial) (fun r hr _ _ _ h => earlier_of_matches hr h) hplain
  obtain ⟨_, hscan⟩ := scanned_scrubStep credentialUrl_within_nil (shown redacted x)
  obtain ⟨y, hurls, hshowny⟩ := exists_swept credentialUrl_aligned .credentials hscan
  have hy : Valid (Settled W) y := hurls.valid (fun _ _ => settled_of_earlier)
    (fun _ _ _ hpart h => ⟨credentials_of_matches hpart h, fun h => by cases h⟩) hx
  obtain ⟨z, hlater, hz, hshownz⟩ := exists_coarser .later (fun k => k.isEarlier = false)
    (fun r hr => aligned_of_later hr) (fun _ _ => rfl)
    (fun r hr _ _ _ h => ⟨later_of_matches hr h, fun h => by cases h⟩) hy
  have haligned : Aligned.{0, 0} redacted (secretAssignment W) :=
    aligned_of_avoids (secretAssignment_avoids W)
  obtain ⟨_, hscan'⟩ := scanned_scrubStep haligned.within_nil (shown redacted z)
  obtain ⟨f, hassign, hshownf⟩ := exists_swept haligned .assignment hscan'
  refine ⟨x, y, z, f, ?_, ?_, hurls, hlater, hassign, fun w hw => (hz _ w hw).2 rfl,
    hassign.valid (fun _ _ h => h.1) (fun _ _ _ _ h => assignment_of_matches h) hz⟩
  · rw [← hassign.coarser.source_eq, ← hlater.source_eq, ← hurls.coarser.source_eq,
      ← hearlier.source_eq, source_plain]
  · have htext : (scrubText W input).1 = scrubWith (secretPatterns W) input := rfl
    rw [hshownf, hshownz, hshowny, hshownx, shown_plain, htext, secretPatterns_eq,
      scrubWith_append, scrubWith_cons, scrubWith_append, scrubWith_cons, scrubWith_nil]

/-! ### The URL that is completed -/

/-- The pieces of a URL before some of them were taken together. -/
theorem coarser_url {late : Redaction → Prop} {scheme : Text}
    (h : Coarser late pieces (Url scheme user password)) :
    ∃ user' password', pieces = Url scheme user' password' ∧ Coarser late user' user ∧
      Coarser late password' password := by
  rw [Url] at h
  obtain ⟨front, afterScheme, rfl, hscheme, hrest⟩ := h.split
  rw [append_assoc, cons_append] at hrest
  obtain ⟨user', afterUser, rfl, huser, hcolon⟩ := hrest.split
  obtain ⟨afterColon, rfl, hsecond⟩ := hcolon.kept
  obtain ⟨password', afterPassword, rfl, hpassword, hat⟩ := hsecond.split
  obtain ⟨nothing, rfl, hend⟩ := hat.kept
  cases hend
  refine ⟨user', password', ?_, huser, hpassword⟩
  rw [hscheme.eq_plain, Url]
  simp only [append_assoc, cons_append]

theorem urlScheme_ne_nil {scheme : Text} (h : urlScheme.Matches none scheme none) : scheme ≠ [] :=
  urlScheme_simple.avoids.ne_nil h

/-- A URL that is shown at last was shown when URLs were looked for, unless a part that was replaced
since then had what no user name or password has. -/
theorem exists_gone {input : Text} {x y z f : List (Piece Char Redaction)}
    (hstages : Stages W input x y z f) {front back : List (Piece Char Redaction)} {scheme : Text}
    (hf : f = front ++ Url scheme user password ++ back)
    (hscheme : urlScheme.Matches none scheme none) (huser : user ≠ []) (hpassword : password ≠ [])
    (huserAll : ∀ c, .kept c ∈ user → isCredential c = true)
    (hpasswordAll : ∀ c, .kept c ∈ password → isCredential c = true) :
    ∃ k w, .gone k w ∈ user ++ password ∧ k.isEarlier = false ∧
      ∃ c ∈ w, isCredential c = false := by
  by_contra hnone
  have hwhole (k : Redaction) (w : Text) (hw : .gone k w ∈ user ++ password)
      (hk : k.isEarlier = false) : ∀ c ∈ w, isCredential c = true := by
    intro c hc
    by_contra hcred
    exact hnone ⟨k, w, hw, hk, c, hc, Bool.not_eq_true _ ▸ hcred⟩
  have hlast : Coarser (fun k => k.isEarlier = false) z f :=
    hstages.assignments.coarser.mono fun k hk => hk ▸ rfl
  have hfine := hstages.between.trans hlast
  rw [hf, append_assoc] at hfine
  obtain ⟨y₁, y₂, rfl, _, hy₂⟩ := hfine.split
  obtain ⟨x₁, x₂, prev, rfl, hswept⟩ := hstages.urls.split
  have hx₂ := (hswept.coarser.mono fun k hk => hk ▸ rfl).trans hy₂
  have hmiss : credentialUrl.Misses ⟨prev, shown redacted x₂⟩ := by
    cases hs : scheme with
    | nil => exact absurd hs (urlScheme_ne_nil hscheme)
    | cons c scheme' =>
      rw [hs] at hy₂
      obtain ⟨y₃, rfl, _⟩ := Coarser.kept hy₂
      exact hswept.misses
  obtain ⟨url, rest, rfl, hurl, _⟩ := hx₂.split
  obtain ⟨user', password', rfl, huser', hpassword'⟩ := coarser_url hurl
  have huserAll' := huser'.forall_kept huserAll
    fun k w hw => hwhole k w (mem_append_left _ hw)
  have hpasswordAll' := hpassword'.forall_kept hpasswordAll
    fun k w hw => hwhole k w (mem_append_right _ hw)
  have hmatches := matches_shown_url hscheme (huser'.ne_nil huser) (hpassword'.ne_nil hpassword)
    huserAll' hpasswordAll' prev (shown redacted rest).head?
  exact hmiss _ _ (shown_append _ _)
    (ne_nil_of_matches credentialUrl_within_nil hmatches) hmatches

/-- The value of an assignment was taken as far as it went. -/
theorem not_isValue_of_stages {input : Text} {x y z front back : List (Piece Char Redaction)}
    {w : Text} {c : Char}
    (h : Stages W input x y z (front ++ .gone .assignment w :: .kept c :: back)) :
    isValue c = false := by
  obtain ⟨z₁, z₂, prev, rfl, hswept⟩ := h.assignments.split
  obtain ⟨b, ⟨a, hhit⟩, hnext⟩ :=
    hswept.after_hit fun v hv => h.fresh v (mem_append_right _ hv)
  obtain ⟨a', _, hlast⟩ := head?_ends_seq hhit
  have hvalue := head?_ends_assignment hlast
  rwa [hnext, Option.any_some] at hvalue

theorem reopens_of_occurs {input : Text}
    (h : credentialUrl.Occurs ⟨none, (scrubText W input).1⟩) : Reopens W input := by
  obtain ⟨x, y, z, f, hstages⟩ := exists_stages W input
  obtain ⟨u, t, v, hsplit, _, hmatches⟩ := h
  dsimp only at hsplit
  rw [← hstages.shown_eq, append_assoc] at hsplit
  obtain ⟨front, scheme, user, password, back, hf, _, _, hscheme, huser, hpassword, huserAll,
    hpasswordAll⟩ := split_url hmatches hsplit
  have hvalid (k : Redaction) (w : Text) (hw : .gone k w ∈ user ++ password) :
      Redactable W k w := by
    apply hstages.valid k w
    rw [hf, Url]
    rw [mem_append] at hw
    simp only [mem_append, mem_cons]
    tauto
  refine ⟨source front, scheme, user, password, source back, ?_, hscheme,
    ⟨huser, huserAll, fun k w hw => hvalid k w (mem_append_left _ hw)⟩,
    ⟨hpassword, hpasswordAll, fun k w hw => hvalid k w (mem_append_right _ hw)⟩,
    exists_gone hstages hf hscheme huser hpassword huserAll hpasswordAll, ?_⟩
  · rw [← hstages.source_eq, hf, source_append, source_append]
  · intro front' w c back' hurl
    have hpieces : f = (front ++ front') ++ .gone .assignment w :: .kept c :: (back' ++ back) := by
      rw [hf, hurl]
      simp only [append_assoc, cons_append]
    rw [hpieces] at hstages
    exact not_isValue_of_stages hstages

/-! ### Clean texts -/

/-- The characters of ASCII words. -/
def asciiWords : WordChars where
  isWord c := "ABCDEFGHIJKLMNOPQRSTUVWXYZabcdefghijklmnopqrstuvwxyz0123456789_".toList.contains c
  value := by
    have hall : ∀ c ∈ "ABCDEFGHIJKLMNOPQRSTUVWXYZabcdefghijklmnopqrstuvwxyz0123456789_".toList,
        isValue c = true := by
      rw [toList_lit rfl]
      decide
    exact fun c hc => hall c (contains_iff_mem.mp hc)

theorem not_reopens_of_within {input : Text} (h : urlScheme.within input = false) :
    ¬ Reopens W input := by
  rintro ⟨before, scheme, user, password, after, rfl, hscheme, _⟩
  have hmem : ∀ c ∈ scheme, c ∈ before ++ source (Url scheme user password) ++ after := by
    intro c hc
    simp [Url, hc]
  have hwithin := within_of_matches hscheme hmem
  rw [h] at hwithin
  cases hwithin

def openaiSample : Text := "Use sk-abcdef0123456789012345 immediately".toList

end AgentMail.Share
