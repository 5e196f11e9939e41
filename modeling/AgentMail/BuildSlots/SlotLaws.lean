import AgentMail.BuildSlots.OwnLeases
import Mathlib.Order.Fin.Basic

/-!
# Build-slot calls keep to their agent's leases

What every call of a run leaves, reports and moves, and the calls that do not: an acquire that finds
another agent's lease under a name of its own holder, and a renewal from an expiry that is not read
back.
-/

namespace AgentMail.BuildSlots

open Base Lib List

variable {τ : Type} [LinearOrder τ]

/-- What is documented of `chrono`: a printed time is read back or not read, distinct times are
printed differently, and seconds are added forwards. -/
structure Crates.Lawful (C : Crates τ) : Prop where
  parse_format : ∀ t t', C.parse (C.format t) = some t' → t' = t
  format_injective : Function.Injective C.format
  le_addSeconds : ∀ t seconds, 0 ≤ seconds → t ≤ C.addSeconds t seconds

abbrev SlotEntry (τ : Type) : Type := Entry (Slot τ) (Call τ) (Except SlotError SlotResponse)

/-- What is expected of a call. -/
structure KeepsToItsAgent (C : Crates τ) (x : SlotEntry τ) : Prop where
  foreign : ∀ name lease, x.before.files.file? name = some (some lease) →
    lease.agent ≠ x.event.operation.agentName → x.after.files.file? name = some (some lease)
  conflicts : ∀ slot agentName branch ttlSeconds exclusive response,
    x.event.operation = .acquire slot agentName branch ttlSeconds exclusive →
    x.response = .ok (.acquired response) →
    response.conflicts.Perm (x.before.files.leases.filter fun lease =>
      C.unexpired x.event.now lease && (lease.releasedTs.isNone && lease.agent != agentName &&
        (exclusive.getD true || lease.exclusive)))
  released : ∀ agentName branch response, x.event.operation = .release agentName branch →
    x.response = .ok response → ∀ entry, ¬ Held C x.event.now agentName entry x.after.files
  renewed : ∀ agentName branch extendSeconds,
    x.event.operation = .renew agentName branch extendSeconds → ∀ name lease t,
    x.before.files.file? name = some (some lease) → lease.agent = agentName →
    C.parse lease.expiresTs = some t →
    ∃ expiresTs, x.after.files.file? name = some (some { lease with expiresTs }) ∧
      (expiresTs = lease.expiresTs ∨ ∃ t', t ≤ t' ∧ expiresTs = C.format t')

/-- The file under a name of the holder holds a lease of the agent, and the latest expiry that is
renewed is read back or not later than the renewal. -/
def Unmistaken (C : Crates τ) (s : Slot τ) (c : Call τ) : Prop :=
  match c.operation with
  | .acquire _ agentName branch _ _ => ∀ name ∈ namedFile C s.files agentName branch, ∀ lease,
    s.files.file? name = some (some lease) → lease.agent = agentName
  | .renew agentName _ extendSeconds => ∀ latest,
    IsGreatest (heldExpiries C c.now agentName s.files) latest →
      C.parse (C.format latest) = some latest ∨ latest ≤ C.addSeconds c.now (extendOf extendSeconds)
  | .release _ _ => True

theorem clampSeconds_nonneg (seconds : Int) : 0 ≤ clampSeconds seconds := by
  unfold clampSeconds
  omega

theorem extendOf_nonneg (extendSeconds : Option Int) : 0 ≤ extendOf extendSeconds := by
  cases extendSeconds with
  | none => decide
  | some seconds => exact clampSeconds_nonneg seconds

variable {C : Crates τ}

theorem le_computeRenewedExpiry (hC : C.Lawful) {now latest : τ} {extend : Int}
    (hextend : 0 ≤ extend)
    (h : C.parse (C.format latest) = some latest ∨ latest ≤ C.addSeconds now extend) :
    ∃ t', latest ≤ t' ∧ computeRenewedExpiry C now (C.format latest) extend = C.format t' := by
  refine ⟨_, ?_, rfl⟩
  cases hparse : C.parse (C.format latest) with
  | some current =>
    rw [hC.parse_format latest current hparse, Option.getD_some]
    exact (le_max_right _ _).trans (hC.le_addSeconds _ _ hextend)
  | none =>
    rw [hparse] at h
    rw [Option.getD_none, max_self]
    exact h.resolve_left (Option.some_ne_none latest).symm

/-! ### One call -/

section

variable {s : Slot τ} {c : Call τ}

variable {branch : Option Text} {agentName : Text}

theorem run_acquire {slot : Text} {ttlSeconds : Option Int} {exclusive : Option Bool}
    (h : c.operation = .acquire slot agentName branch ttlSeconds exclusive) :
    (s.run C c).1 = (acquireSlotLease C c.now c.listing c.room s.files slot agentName branch
        (ttlOf ttlSeconds) (exclusive.getD true)).1.map .acquired ∧
      (s.run C c).2.files = (acquireSlotLease C c.now c.listing c.room s.files slot agentName branch
        (ttlOf ttlSeconds) (exclusive.getD true)).2 := by
  rw [Slot.run, h]
  exact ⟨rfl, rfl⟩

/-- Nothing is read where there is no file. -/
theorem readActiveLeaseEntries_nil (now : τ) : readActiveLeaseEntries C now [] = .ok [] := by
  simp [readActiveLeaseEntries, readEntries, Except.map]

theorem run_renew {extendSeconds : Option Int}
    (h : c.operation = .renew agentName branch extendSeconds)
    (hlisting : c.listing.Perm s.files.entries) :
    (s.run C c).1 = (renewSlotLease C c.now c.listing c.room s.files agentName
        (extendOf extendSeconds)).1.map .renewed ∧
      (s.run C c).2.files = (renewSlotLease C c.now c.listing c.room s.files agentName
        (extendOf extendSeconds)).2 := by
  rw [Slot.run, h]
  cases hdir : s.dir with
  | some d =>
    rw [Slot.files, hdir]
    exact ⟨rfl, rfl⟩
  | none =>
    have hempty : s.files = .empty := by rw [Slot.files, hdir]; rfl
    rw [hempty] at hlisting ⊢
    rw [List.Perm.eq_nil hlisting, renewSlotLease, readActiveLeaseEntries_nil]
    exact ⟨rfl, rfl⟩

theorem run_release (h : c.operation = .release agentName branch)
    (hlisting : c.listing.Perm s.files.entries) :
    (s.run C c).1 = (releaseSlotLease C c.now c.listing c.room s.files agentName).1.map .released ∧
      (s.run C c).2.files = (releaseSlotLease C c.now c.listing c.room s.files agentName).2 := by
  rw [Slot.run, h]
  cases hdir : s.dir with
  | some d =>
    rw [Slot.files, hdir]
    exact ⟨rfl, rfl⟩
  | none =>
    have hempty : s.files = .empty := by rw [Slot.files, hdir]; rfl
    rw [hempty] at hlisting ⊢
    rw [List.Perm.eq_nil hlisting, releaseSlotLease, readActiveLeaseEntries_nil]
    exact ⟨rfl, rfl⟩

/-! ### The laws of one call -/

theorem map_eq_ok {ε α β : Type} {f : α → β} {result : Except ε α} {b : β}
    (h : result.map f = .ok b) : ∃ a, result = .ok a ∧ f a = b := by
  cases result with
  | error e => cases h
  | ok a => exact ⟨a, rfl, Except.ok.inj h⟩

theorem succeeded_map {ε α β : Type} (f : α → β) (result : Except ε α) :
    succeeded (result.map f) = succeeded result := by
  cases result <;> rfl

theorem succeeded_of_map {ε α β : Type} {f : α → β} {result : Except ε α} {b : β}
    (h : result.map f = .ok b) : succeeded result = true := by
  rw [← succeeded_map f, h]
  rfl

theorem keeps_acquire {slot : Text} {ttlSeconds : Option Int} {exclusive : Option Bool}
    (hlisting : c.listing.Perm s.files.entries)
    (hop : c.operation = .acquire slot agentName branch ttlSeconds exclusive)
    (h : Unmistaken C s c) : KeepsToItsAgent C ⟨s, c, (s.run C c).1, (s.run C c).2⟩ := by
  obtain ⟨hresponse, hfiles⟩ := run_acquire (C := C) (s := s) hop
  constructor
  · intro name lease hfile hother
    rw [hop] at hother
    rw [Unmistaken, hop] at h
    obtain ⟨granted, _, hwrote⟩ := acquire_wrote C c.now c.listing c.room s.files slot
      agentName branch (ttlOf ttlSeconds) (exclusive.getD true)
    rw [hfiles]
    apply hwrote.foreign (nodup_singleton _) _ hfile hother
    intro w hw lease' hlease'
    rw [mem_singleton.mp hw] at hlease'
    exact agent_of_resolve hlisting h hlease'
  · intro slot' agentName' branch' ttlSeconds' exclusive' response hop' hok
    rw [hop] at hop'
    cases hop'
    rw [hresponse] at hok
    obtain ⟨granted, hgranted, heq⟩ := map_eq_ok hok
    cases heq
    exact acquire_conflicts hlisting hgranted
  · intro agentName' branch' response hop'
    rw [hop] at hop'
    cases hop'
  · intro agentName' branch' extendSeconds hop'
    rw [hop] at hop'
    cases hop'

theorem keeps_release (hlisting : c.listing.Perm s.files.entries)
    (hop : c.operation = .release agentName branch) :
    KeepsToItsAgent C ⟨s, c, (s.run C c).1, (s.run C c).2⟩ := by
  obtain ⟨hresponse, hfiles⟩ := run_release (C := C) hop hlisting
  have hcases := release_cases C c.now c.room agentName hlisting
  rw [← hfiles] at hcases
  constructor
  · intro name lease hfile hother
    rw [hop] at hother
    rcases hcases with ⟨_, hsame⟩ | ⟨active, hfound, hwrote⟩
    · rw [hsame, hfile]
    · exact foreign_of_rewritten hfound hwrote hfile hother
  · intro slot' agentName' branch' ttlSeconds' exclusive' response hop'
    rw [hop] at hop'
    cases hop'
  · intro agentName' branch' response hop' hok entry hheld
    rw [hop] at hop'
    cases hop'
    rw [hresponse] at hok
    rcases hcases with ⟨hfailed, _⟩ | ⟨active, hfound, hwrote⟩
    · rw [succeeded_of_map hok] at hfailed
      cases hfailed
    · rw [succeeded_of_map hok] at hwrote
      have hdistinct := nodup_paths_ownedBy agentName hfound
        fun entry => { entry.lease with releasedTs := some (C.format c.now) }
      obtain ⟨hfile, hjson, hparse, hlt, hagent, hreleased⟩ := hheld
      rcases hwrote.file? hdistinct entry.path with hsame | ⟨lease', hmem, hwritten⟩
      · rw [hsame] at hfile
        have hentry : entry ∈ ownedBy agentName active :=
          (mem_ownedBy hfound).mpr ⟨hfile, hjson, hparse, hlt, hagent, hreleased⟩
        have hmark := hwrote.file?_of_mem hdistinct (mem_map_of_mem hentry)
        rw [hsame, hfile] at hmark
        have hlease := Option.some.inj (Option.some.inj hmark)
        rw [hlease] at hreleased
        cases hreleased
      · obtain ⟨entry', _, heq⟩ := mem_map.mp hmem
        rw [hwritten] at hfile
        have hlease := Option.some.inj (Option.some.inj hfile)
        rw [← hlease, ← (Prod.mk.inj heq).2] at hreleased
        cases hreleased
  · intro agentName' branch' extendSeconds hop'
    rw [hop] at hop'
    cases hop'

theorem keeps_renew (hC : C.Lawful) {extendSeconds : Option Int}
    (hlisting : c.listing.Perm s.files.entries)
    (hop : c.operation = .renew agentName branch extendSeconds) (h : Unmistaken C s c) :
    KeepsToItsAgent C ⟨s, c, (s.run C c).1, (s.run C c).2⟩ := by
  obtain ⟨hresponse, hfiles⟩ := run_renew (C := C) hop hlisting
  have hcases := renew_cases C c.now c.room agentName (extendOf extendSeconds) hlisting
  rw [← hfiles] at hcases
  constructor
  · intro name lease hfile hother
    rw [hop] at hother
    rcases hcases with ⟨hsame, _⟩ | ⟨active, latest, hfound, _, hwrote⟩
    · rw [hsame, hfile]
    · exact foreign_of_rewritten hfound hwrote hfile hother
  · intro slot' agentName' branch' ttlSeconds' exclusive' response hop'
    rw [hop] at hop'
    cases hop'
  · intro agentName' branch' response hop'
    rw [hop] at hop'
    cases hop'
  · intro agentName' branch' extendSeconds' hop' name lease t hfile hagent hparse
    rw [hop] at hop'
    cases hop'
    rcases hcases with ⟨hsame, _⟩ | ⟨active, latest, hfound, hlatest, hwrote⟩
    · exact ⟨lease.expiresTs, by rw [hsame, hfile], Or.inl rfl⟩
    · rw [Unmistaken, hop] at h
      have hdistinct := nodup_paths_ownedBy agentName hfound fun entry =>
        { entry.lease with
          expiresTs := computeRenewedExpiry C c.now (C.format latest) (extendOf extendSeconds) }
      rcases hwrote.file? hdistinct name with hsame | ⟨lease', hmem, hwritten⟩
      · exact ⟨lease.expiresTs, by rw [hsame, hfile], Or.inl rfl⟩
      · obtain ⟨entry, hentry, heq⟩ := mem_map.mp hmem
        have hheld := (mem_ownedBy hfound).mp hentry
        obtain ⟨hname, hlease⟩ := Prod.mk.inj heq
        have hstored : lease = entry.lease := by
          have hsome := hheld.1
          rw [hname, hfile] at hsome
          exact Option.some.inj (Option.some.inj hsome)
        have hexpires : t = entry.expiresAt := by
          have hsome := hheld.2.2.1
          rw [← hstored, hparse] at hsome
          exact Option.some.inj hsome
        obtain ⟨t', hle, hformat⟩ := le_computeRenewedExpiry hC (extendOf_nonneg extendSeconds)
          (h latest hlatest)
        refine ⟨_, hwritten.trans ?_, Or.inr ⟨t', ?_, hformat⟩⟩
        · rw [← hlease, hstored]
        · exact (hlatest.2 ⟨entry, hheld, hexpires.symm⟩).trans hle

theorem keeps_of_unmistaken (hC : C.Lawful) (hlisting : c.listing.Perm s.files.entries)
    (h : Unmistaken C s c) : KeepsToItsAgent C ⟨s, c, (s.run C c).1, (s.run C c).2⟩ := by
  cases hop : c.operation with
  | acquire slot agentName branch ttlSeconds exclusive => exact keeps_acquire hlisting hop h
  | renew agentName branch extendSeconds => exact keeps_renew hC hlisting hop h
  | release agentName branch => exact keeps_release hlisting hop

/-- A mistaken acquire that succeeds has written over the lease of another agent. -/
theorem own_of_keeps_acquire {slot : Text} {ttlSeconds : Option Int} {exclusive : Option Bool}
    (hop : c.operation = .acquire slot agentName branch ttlSeconds exclusive)
    (hok : succeeded (s.run C c).1 = true)
    (h : KeepsToItsAgent C ⟨s, c, (s.run C c).1, (s.run C c).2⟩) {name : Text}
    (hname : namedFile C s.files agentName branch = some name) {lease : BuildSlotLease}
    (hfile : s.files.file? name = some (some lease)) : lease.agent = agentName := by
  obtain ⟨hresponse, hfiles⟩ := run_acquire (C := C) (s := s) hop
  obtain ⟨granted, hagent, hwrote⟩ := acquire_wrote C c.now c.listing c.room s.files slot
    agentName branch (ttlOf ttlSeconds) (exclusive.getD true)
  rw [← hfiles, resolve_of_namedFile hname] at hwrote
  by_contra hother
  have hkept := h.foreign name lease hfile (by rw [hop]; exact hother)
  rw [hresponse, succeeded_map] at hok
  rw [hok] at hwrote
  have hwritten := hwrote.file?_of_mem (nodup_singleton _) (mem_singleton_self _)
  dsimp only at hkept
  rw [hkept] at hwritten
  rw [Option.some.inj (Option.some.inj hwritten)] at hother
  exact hother hagent

/-- A renewal from an expiry that is not read back starts from the clock. -/
theorem reads_of_keeps_renew (hC : C.Lawful) {extendSeconds : Option Int}
    (hlisting : c.listing.Perm s.files.entries)
    (hop : c.operation = .renew agentName branch extendSeconds)
    (hok : succeeded (s.run C c).1 = true)
    (h : KeepsToItsAgent C ⟨s, c, (s.run C c).1, (s.run C c).2⟩) {latest : τ}
    (hlatest : IsGreatest (heldExpiries C c.now agentName s.files) latest) :
    C.parse (C.format latest) = some latest ∨
      latest ≤ C.addSeconds c.now (extendOf extendSeconds) := by
  obtain ⟨hresponse, hfiles⟩ := run_renew (C := C) hop hlisting
  have hcases := renew_cases C c.now c.room agentName (extendOf extendSeconds) hlisting
  rw [hresponse, succeeded_map] at hok
  rw [← hfiles, hok] at hcases
  rcases hcases with ⟨_, hnone⟩ | ⟨active, latest', hfound, hlatest', hwrote⟩
  · exact absurd hlatest (hnone rfl latest)
  · rw [hlatest'.unique hlatest] at hwrote
    obtain ⟨entry, hheld, hexpires⟩ := hlatest.1
    have hwritten := hwrote.file?_of_mem (nodup_paths_ownedBy agentName hfound _)
      (mem_map_of_mem ((mem_ownedBy hfound).mpr hheld))
    obtain ⟨hstored, _, hparse, _, hagent, _⟩ := hheld
    obtain ⟨expiresTs, hafter, hlate⟩ := h.renewed agentName branch extendSeconds hop entry.path
      entry.lease entry.expiresAt hstored hagent hparse
    dsimp only at hafter
    rw [hwritten] at hafter
    have hlease := Option.some.inj (Option.some.inj hafter)
    injection hlease with _ _ _ _ _ hexp _
    cases hread : C.parse (C.format latest) with
    | some current => exact Or.inl (by rw [hC.parse_format latest current hread])
    | none =>
      right
      rw [computeRenewedExpiry, hread, Option.getD_none, max_self] at hexp
      rw [hexpires] at hparse hlate
      rcases hlate with hsame | ⟨t', hle, hformat⟩
      · rw [← hsame, ← hexp] at hparse
        exact (hC.parse_format _ _ hparse).le
      · rw [hformat] at hexp
        rwa [hC.format_injective hexp]

theorem unmistaken_of_keeps (hC : C.Lawful) (hlisting : c.listing.Perm s.files.entries)
    (hok : succeeded (s.run C c).1 = true)
    (h : KeepsToItsAgent C ⟨s, c, (s.run C c).1, (s.run C c).2⟩) : Unmistaken C s c := by
  unfold Unmistaken
  cases hop : c.operation with
  | acquire slot agentName branch ttlSeconds exclusive =>
    intro name hname lease hfile
    exact own_of_keeps_acquire hop hok h hname hfile
  | renew agentName branch extendSeconds =>
    intro latest hlatest
    exact reads_of_keeps_renew hC hlisting hop hok h hlatest
  | release agentName branch => trivial

end

/-! ### Runs -/

theorem step_eq_some {s s' : Slot τ} {c : Call τ} {response : Except SlotError SlotResponse}
    (h : s.step C c = some (response, s')) :
    c.listing.Perm s.files.entries ∧ response = (s.run C c).1 ∧ s' = (s.run C c).2 := by
  rw [Slot.step] at h
  split at h
  · next hcan =>
    rw [Option.some.inj h]
    exact ⟨hcan.2, rfl, rfl⟩
  · cases h

/-- A call keeps to the leases of its agent where no name or expiry misleads it, and, unless it
fails, only there. -/
theorem keeps_iff_unmistaken (hC : C.Lawful) (s : Slot τ) (calls : List (Call τ)) :
    ∀ x ∈ trace (Slot.step C) s calls, (Unmistaken C x.before x.event → KeepsToItsAgent C x) ∧
        (succeeded x.response = true → KeepsToItsAgent C x → Unmistaken C x.before x.event) := by
  intro x hx
  have hkeeps (s : Slot τ) (c : Call τ) (response : Except SlotError SlotResponse) (s' : Slot τ)
      (_ : True) (_ : s.step C c = some (response, s')) : True := trivial
  obtain ⟨_, hstep, _⟩ := forall_mem_trace hkeeps trivial calls x hx
  obtain ⟨before, c, response, after⟩ := x
  obtain ⟨hlisting, hresponse, hafter⟩ := step_eq_some hstep
  dsimp only at hresponse hafter
  subst hresponse hafter
  exact ⟨keeps_of_unmistaken hC hlisting, unmistaken_of_keeps hC hlisting⟩

/-! ### Two agents, one legacy name -/

def hourText (hour : Fin 24) : Text :=
  "2026-05-01T".toList ++ [Nat.digitChar (hour / 10), Nat.digitChar (hour % 10)] ++
    ":00:00+00:00".toList

/-- The hours of one day, and the hashes of two names. -/
def dayCrates : Crates (Fin 24) where
  parse text := (List.finRange 24).find? fun hour => hourText hour == text
  format := hourText
  addSeconds hour seconds := Fin.ofNat 24 (min 23 (hour + seconds.toNat / 3600))
  shortHash name :=
    if name = "build/bot".toList then "c3beab9d2a5defb1".toList
    else if name = "build_bot".toList then "31f6e0b3a48825a6".toList
    else '-' :: name

theorem hourText_injective : Function.Injective hourText := by
  have hdigits : ∀ a b : Fin 24, [Nat.digitChar (a / 10), Nat.digitChar (a % 10)] =
      [Nat.digitChar (b / 10), Nat.digitChar (b % 10)] → a = b := by decide +kernel
  intro a b h
  unfold hourText at h
  rw [append_left_inj, append_right_inj] at h
  exact hdigits a b h

theorem dayCrates_lawful : dayCrates.Lawful where
  parse_format t t' h := by
    have hprinted : (hourText t' == hourText t) = true :=
      List.find?_some (p := fun hour => hourText hour == hourText t) h
    exact hourText_injective (beq_iff_eq.mp hprinted)
  format_injective := hourText_injective
  le_addSeconds t seconds _ := by
    change (t : Nat) ≤ min 23 ((t : Nat) + seconds.toNat / 3600) % 24
    omega

def buildBotLease : BuildSlotLease where
  slot := "release".toList
  agent := "build/bot".toList
  branch := none
  exclusive := true
  acquiredTs := hourText 9
  expiresTs := hourText 12
  releasedTs := none

/-- The lease of `build/bot` under its legacy name. -/
def legacySlot : Slot (Fin 24) where
  dir := some ⟨[("build_bot.json".toList, some buildBotLease)], by decide⟩
  clock := 9

/-- The same lease under its hashed name. -/
def hashedSlot : Slot (Fin 24) where
  dir := some ⟨[("build_bot--c3beab9d2a5defb1.json".toList, some buildBotLease)], by decide⟩
  clock := 9

/-- `build_bot` asks for the slot. -/
def buildBotCall (s : Slot (Fin 24)) : Call (Fin 24) where
  operation := .acquire "release".toList "build_bot".toList none none none
  now := 10
  listing := s.files.entries
  room := 1

theorem trace_buildBotCall {s : Slot (Fin 24)} (hclock : s.clock ≤ 10) :
    trace (Slot.step dayCrates) s [buildBotCall s] =
      [⟨s, buildBotCall s, (s.run dayCrates (buildBotCall s)).1,
        (s.run dayCrates (buildBotCall s)).2⟩] := by
  have hstep : s.step dayCrates (buildBotCall s) = some (s.run dayCrates (buildBotCall s)) :=
    if_pos ⟨hclock, List.Perm.refl _⟩
  rw [trace_cons_some hstep]
  rfl

theorem keeps_iff_unmistaken_hashed :
    ∃ x ∈ trace (Slot.step dayCrates) hashedSlot [buildBotCall hashedSlot],
      KeepsToItsAgent dayCrates x := by
  have hrun := trace_buildBotCall (s := hashedSlot) (by decide)
  have hx := mem_singleton_self (⟨hashedSlot, buildBotCall hashedSlot,
    (hashedSlot.run dayCrates (buildBotCall hashedSlot)).1,
    (hashedSlot.run dayCrates (buildBotCall hashedSlot)).2⟩ : SlotEntry (Fin 24))
  rw [← hrun] at hx
  refine ⟨_, hx, (keeps_iff_unmistaken dayCrates_lawful hashedSlot _ _ hx).1 ?_⟩
  have hnone : namedFile dayCrates hashedSlot.files "build_bot".toList none = none := by decide
  intro name hname
  rw [hnone] at hname
  cases hname

/-- The legacy name of `build_bot` is the one of `build/bot`. -/
theorem acquire_overwrites_legacy : dayCrates.Lawful ∧ Function.Injective dayCrates.shortHash ∧
    ∃ x ∈ trace (Slot.step dayCrates) legacySlot [buildBotCall legacySlot],
      x.before.files.file? "build_bot.json".toList = some (some buildBotLease) ∧
        x.event.operation.agentName ≠ buildBotLease.agent ∧
        x.after.files.file? "build_bot.json".toList ≠ some (some buildBotLease) := by
  have hinjective : Function.Injective dayCrates.shortHash := by
    intro a b h
    simp only [dayCrates] at h
    split_ifs at h <;> simp_all
  have hrun := trace_buildBotCall (s := legacySlot) (by decide)
  have hread : readActiveLeaseEntries dayCrates (buildBotCall legacySlot).now
      (buildBotCall legacySlot).listing = .ok [⟨"build_bot.json".toList, buildBotLease, 12⟩] := by
    have hentries : readEntries dayCrates (buildBotCall legacySlot).now
        (buildBotCall legacySlot).listing =
          .ok [⟨"build_bot.json".toList, buildBotLease, 12⟩] := by rfl
    rw [readActiveLeaseEntries, hentries]
    simp [Except.map]
  refine ⟨dayCrates_lawful, hinjective, ?_⟩
  rw [hrun]
  refine ⟨_, mem_singleton_self _, by decide, by decide, ?_⟩
  have hafter := (run_acquire (C := dayCrates) (s := legacySlot) (c := buildBotCall legacySlot) rfl).2
  rw [hafter, acquireSlotLease, readActiveLeases, hread]
  decide

end AgentMail.BuildSlots
