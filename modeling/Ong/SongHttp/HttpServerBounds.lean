import Ong.SongHttp.HttpServerReading

/-!
# The bounds of the buffer

The accesses of the HTTP server transaction stay inside its buffer, and the position stays behind
what was read, in every run on any stream, if no line begins with a line feed that is taken for its
end, the content length is not negative, and what is read in the end reaches the position.

## Main results

* `inv_step`: one step keeps the bounds
* `visits_safe`: the bounds hold in every state of a run
-/

namespace Ong.SongHttp

open Program Util SocketRead HttpBuffer HttpServerTransaction Run

variable {manager : HttpServerManager} {platform : Platform} {t u : HttpServerTransaction platform}

/-- **The bounds of the buffer**: no access was outside, and a content length that is negative is
not handed. -/
structure Safe (manager : HttpServerManager) (t : HttpServerTransaction platform) : Prop where
  within : t.input.Within
  length : t.input.buffer.length = manager.maxBufferSize
  inside : t.phase ≠ .failed .indexOutOfBounds
  ends : t.phase ≠ .failed .outOfFuel
  refused : t.phase = .handed → 0 ≤ t.contentLength

/-- The condition for the bounds. -/
def Bounded (t : HttpServerTransaction platform) : Prop :=
  match t.phase with
  | .httpVersion => LineAhead t.input
  | .headerValue => LineAhead t.input
  | .continuation => LineAhead t.input
  | .content => 0 ≤ t.contentLength ∧ (t.contentLength ≠ 0 → PositionKept t.input t.contentLength)
  | _ => True

instance (t : HttpServerTransaction platform) : Decidable (Bounded t) := by
  unfold Bounded
  split <;> infer_instance

section Bounds

/-- What the bounds of the next step rest on. -/
structure Inv (manager : HttpServerManager) (t : HttpServerTransaction platform) : Prop where
  safe : Safe manager t
  empty : t.phase = .waiting → t.input.window = []
  room : t.phase ≠ .waiting → t.phase ≠ .method → (∀ e, t.phase ≠ .failed e) →
    0 < manager.maxBufferSize
  name : ∀ start length, t.phase = .headerName start length →
    start + length ≤ manager.maxBufferSize
  content : t.phase = .content → t.contentLength ≤ manager.maxContentLength

/-- The phases that ask for nothing but the bounds. -/
def Phase.plain : Phase → Bool
  | .requestUri | .httpVersion | .headers | .headerStart | .headerValue | .continuation => true
  | .request => true
  | _ => false

theorem inv_of_plain (hwithin : t.input.Within)
    (hlen : t.input.buffer.length = manager.maxBufferSize) (hroom : 0 < manager.maxBufferSize)
    (h : t.phase.plain = true) : Inv manager t := by
  have hne : ∀ p : Phase, p.plain = false → t.phase ≠ p := fun p hp heq => by
    rw [heq, hp] at h
    cases h
  exact ⟨⟨hwithin, hlen, hne _ rfl, hne _ rfl, fun h => absurd h (hne _ rfl)⟩,
    fun h => absurd h (hne _ rfl), fun _ _ _ => hroom, fun _ _ h => absurd h (hne _ rfl),
    fun h => absurd h (hne _ rfl)⟩

variable {e : HttpException}

theorem inv_fail (hwithin : t.input.Within) (hlen : t.input.buffer.length = manager.maxBufferSize)
    (he : e ≠ .indexOutOfBounds ∧ e ≠ .outOfFuel) : Inv manager (t.fail e) := by
  exact ⟨⟨hwithin, hlen, fun h => he.1 (Phase.failed.inj h), fun h => he.2 (Phase.failed.inj h),
    nofun⟩, nofun, fun _ _ h => absurd rfl (h e), nofun, nofun⟩

theorem HttpException.Refusal.ne (h : e.Refusal) : e ≠ .indexOutOfBounds ∧ e ≠ .outOfFuel :=
  ⟨fun he => (he ▸ h : HttpException.Refusal .indexOutOfBounds),
    fun he => (he ▸ h : HttpException.Refusal .outOfFuel)⟩

theorem server_ne {message : String} {status : Nat} :
    HttpException.server message status ≠ .indexOutOfBounds ∧
      HttpException.server message status ≠ .outOfFuel :=
  ⟨nofun, nofun⟩

theorem call_ends {α : Type} {m : Reading α} {Q : α → HttpBuffer → Prop}
    {E : HttpException → HttpBuffer → Prop}
    {k : α → HttpServerTransaction platform → HttpServerTransaction platform}
    (h : Ends m Q E t.input) {P : HttpServerTransaction platform → Prop}
    (hQ : ∀ a s, Q a s → P (k a { t with input := s }))
    (hE : ∀ e s, E e s → P (fail { t with input := s } e)) : P (t.call m k) := by
  unfold call
  unfold Ends at h
  cases hm : m t.input with
  | ok a s =>
    rw [hm] at h
    exact hQ a s h
  | error e s =>
    rw [hm] at h
    exact hE e s h

section

variable (hwithin : t.input.Within) (hlen : t.input.buffer.length = manager.maxBufferSize)
  (hroom : 0 < manager.maxBufferSize)

include hwithin hlen hroom

theorem inv_addHeader {next : Phase} (hnext : next.plain = true) :
    Inv manager (t.addHeader manager next) := by
  unfold addHeader
  split
  · exact inv_of_plain hwithin hlen hroom hnext
  · split
    · exact inv_fail hwithin hlen ⟨by decide, by decide⟩
    · dsimp only
      split
      · refine inv_fail ?_ ?_ server_ne
        · exact hwithin
        · exact hlen
      · exact inv_of_plain hwithin hlen hroom hnext

theorem inv_content (hphase : t.phase = .content)
    (hcl : t.contentLength ≤ manager.maxContentLength) : Inv manager t := by
  have hne : ∀ p, p ≠ .content → t.phase ≠ p := fun p hp h => hp (h.symm.trans hphase)
  exact ⟨⟨hwithin, hlen, hne _ nofun, hne _ nofun, fun h => absurd h (hne _ nofun)⟩,
    fun h => absurd h (hne _ nofun), fun _ _ _ => hroom, fun _ _ h => absurd h (hne _ nofun),
    fun _ => hcl⟩

theorem inv_handleRequest : Inv manager (t.handleRequest manager) := by
  unfold handleRequest
  dsimp only
  split
  · exact inv_fail hwithin hlen ⟨by decide, by decide⟩
  split
  · exact inv_fail hwithin hlen server_ne
  split
  · split
    · exact inv_fail hwithin hlen server_ne
    · split
      · exact inv_fail hwithin hlen server_ne
      · split
        · refine inv_fail ?_ ?_ server_ne
          · exact hwithin
          · exact hlen
        · rename_i hle
          exact inv_content hwithin hlen hroom rfl (Int.not_lt.mp hle)
  · exact inv_content hwithin hlen hroom rfl (Int.natCast_nonneg _)

end

theorem maxContentLength_le (manager : HttpServerManager) :
    manager.maxContentLength ≤ manager.maxBufferSize := by
  unfold HttpServerManager.maxBufferSize
  omega

section

variable (hwithin : t.input.Within) (hlen : t.input.buffer.length = manager.maxBufferSize)
  (hroom : 0 < manager.maxBufferSize)

include hwithin hlen hroom

theorem inv_handed (hphase : t.phase = .handed) (hcl : 0 ≤ t.contentLength) : Inv manager t := by
  have hne : ∀ p, p ≠ .handed → t.phase ≠ p := fun p hp h => hp (h.symm.trans hphase)
  exact ⟨⟨hwithin, hlen, hne _ nofun, hne _ nofun, fun _ => hcl⟩,
    fun h => absurd h (hne _ nofun), fun _ _ _ => hroom, fun _ _ h => absurd h (hne _ nofun),
    fun h => absurd h (hne _ nofun)⟩

theorem inv_readLine (hahead : LineAhead t.input) {prefixLength : Nat}
    {k : String → HttpServerTransaction platform → HttpServerTransaction platform}
    (hk : ∀ text t, (k text t).phase = .headers ∧ (k text t).input = t.input) :
    Inv manager (t.call (readLine manager platform prefixLength) k) := by
  refine call_ends (readLine_ends hwithin (hlen ▸ hroom) hahead) ?_ ?_
  · rintro text s ⟨k', hs, -⟩
    obtain ⟨hphase, hinput⟩ := hk text { t with input := s }
    refine inv_of_plain ?_ ?_ hroom (by rw [hphase]; rfl)
    · rw [hinput]
      exact hs.within
    · rw [hinput]
      exact hs.length.trans hlen
  · rintro e s ⟨hs, hslen, he, -⟩
    exact inv_fail hs (hslen.trans hlen) he.ne

end

theorem inv_refused {s : HttpBuffer} (hlen : t.input.buffer.length = manager.maxBufferSize)
    (h : s.Within ∧ s.buffer.length = t.input.buffer.length ∧ e.Refusal) :
    Inv manager (fail { t with input := s } e) :=
  inv_fail h.1 (h.2.1.trans hlen) h.2.2.ne

theorem inv_call {α : Type} {m : Reading α} {Q : α → HttpBuffer → Prop}
    {E : HttpException → HttpBuffer → Prop}
    {k : α → HttpServerTransaction platform → HttpServerTransaction platform}
    (hlen : t.input.buffer.length = manager.maxBufferSize)
    (h : Ends m Q (fun e s => s.Within ∧ s.buffer.length = t.input.buffer.length ∧ e.Refusal ∧ E e s)
      t.input)
    (hQ : ∀ a s, Q a s → Inv manager (k a { t with input := s })) : Inv manager (t.call m k) :=
  call_ends h hQ fun _ _ hs => inv_refused hlen ⟨hs.1, hs.2.1, hs.2.2.1⟩

/-- **One step keeps the bounds.** -/
theorem inv_step (h : Inv manager t) (hbounded : Bounded t)
    (hstep : step manager platform t () = some u) : Inv manager u := by
  obtain ⟨⟨hwithin, hlen, -, -, -⟩, hempty, hroom, hname, hcontent⟩ := h
  unfold step at hstep
  unfold Bounded at hbounded
  cases hphase : t.phase with
  | waiting =>
    simp only [hphase, Option.some.injEq] at hstep
    subst hstep
    refine call_ends (refill_ends hwithin (hempty hphase)) ?_ ?_
    · rintro _ s ⟨hs, -⟩
      exact ⟨⟨hs.within, hs.length.trans hlen, nofun, nofun, nofun⟩, nofun,
        fun _ h => absurd rfl h, nofun, nofun⟩
    · rintro e s ⟨rfl, rfl, -⟩
      exact inv_refused hlen ⟨hwithin, rfl, trivial⟩
  | method =>
    simp only [hphase, Option.some.injEq] at hstep
    subst hstep
    refine inv_call hlen (readUntilSP_ends hwithin) ?_
    rintro text s ⟨token, hs, -, -, -, hpos⟩
    have hroom : 0 < manager.maxBufferSize := by
      have := hs.within
      have := hs.length
      unfold Within at *
      omega
    unfold methodRead
    split
    · exact inv_of_plain hs.within (hs.length.trans hlen) hroom rfl
    · exact inv_fail hs.within (hs.length.trans hlen) server_ne
  | requestUri =>
    simp only [hphase, Option.some.injEq] at hstep
    subst hstep
    have hroom := hroom (hphase ▸ nofun) (hphase ▸ nofun) (hphase ▸ nofun)
    refine inv_call hlen (readUntilSP_ends hwithin) ?_
    rintro text s ⟨token, hs, -⟩
    exact inv_of_plain hs.within (hs.length.trans hlen) hroom rfl
  | httpVersion | headerValue | continuation =>
    simp only [hphase, Option.some.injEq] at hstep hbounded
    subst hstep
    have hroom := hroom (hphase ▸ nofun) (hphase ▸ nofun) (hphase ▸ nofun)
    exact inv_readLine hwithin hlen hroom hbounded fun _ _ => ⟨rfl, rfl⟩
  | headers =>
    simp only [hphase, Option.some.injEq] at hstep
    subst hstep
    have hroom := hroom (hphase ▸ nofun) (hphase ▸ nofun) (hphase ▸ nofun)
    refine inv_call hlen (readLineStart_ends hwithin (hlen ▸ hroom) t.name) ?_
    rintro l s ⟨hs, -⟩
    cases l with
    | continued => exact inv_of_plain hs.within (hs.length.trans hlen) hroom rfl
    | ended | named => exact inv_addHeader hs.within (hs.length.trans hlen) hroom rfl
  | headerStart =>
    simp only [hphase, Option.some.injEq] at hstep
    subst hstep
    have hroom := hroom (hphase ▸ nofun) (hphase ▸ nofun) (hphase ▸ nofun)
    refine inv_call hlen (findHeaderName_ends hwithin) ?_
    rintro ⟨start, length⟩ s ⟨token, hs, -, -, -, hle⟩
    have hslen := hs.length.trans hlen
    refine ⟨⟨hs.within, hslen, nofun, nofun, nofun⟩, nofun, fun _ _ _ => hroom, ?_, nofun⟩
    intro start' length' heq
    obtain ⟨rfl, rfl⟩ := Phase.headerName.inj heq
    exact hslen ▸ hle
  | headerName start length =>
    simp only [hphase, Option.some.injEq] at hstep
    subst hstep
    have hroom := hroom (hphase ▸ nofun) (hphase ▸ nofun) (hphase ▸ nofun)
    have hle := hname start length hphase
    refine inv_call hlen (buildHeaderName_ends hwithin (hlen ▸ hroom) (hlen ▸ hle)) ?_
    rintro name s ⟨hs, -⟩
    exact inv_of_plain hs.within (hs.length.trans hlen) hroom rfl
  | request =>
    simp only [hphase, Option.some.injEq] at hstep
    subst hstep
    have hroom := hroom (hphase ▸ nofun) (hphase ▸ nofun) (hphase ▸ nofun)
    exact inv_handleRequest hwithin hlen hroom
  | content =>
    simp only [hphase] at hstep hbounded
    have hroom := hroom (hphase ▸ nofun) (hphase ▸ nofun) (hphase ▸ nofun)
    obtain ⟨hcl, hkept⟩ := hbounded
    split at hstep
    · rename_i hne
      obtain rfl := Option.some.inj hstep
      have hsmall : t.contentLength ≤ t.input.buffer.length := by
        have := hcontent hphase
        have := maxContentLength_le manager
        omega
      refine call_ends (parseContent_ends hwithin hsmall) ?_ ?_
      · rintro _ s ⟨hslen, hs, -⟩
        exact inv_handed (hs (hkept hne)) (hslen.trans hlen) hroom rfl hcl
      · rintro e s ⟨hslen, hs, he, -⟩
        exact inv_refused hlen ⟨hs (hkept hne), hslen, he⟩
    · obtain rfl := Option.some.inj hstep
      exact inv_handed hwithin hlen hroom rfl hcl
  | handed | failed => simp [hphase] at hstep

theorem inv_start {buffer : List UInt8} (hlen : buffer.length = manager.maxBufferSize)
    (reads : List SocketRead) : Inv manager (start buffer reads : HttpServerTransaction platform) :=
  ⟨⟨⟨Nat.le_refl 0, Nat.zero_le _⟩, hlen, nofun, nofun, nofun⟩, fun _ => rfl,
    fun h => absurd rfl h, nofun, nofun⟩

/-- **The bounds hold in every state of a run** whose steps meet the condition, for every stream. -/
theorem visits_safe {buffer : List UInt8} (hlen : buffer.length = manager.maxBufferSize)
    (reads : List SocketRead) {es : List Unit}
    (h : Along (step manager platform) (fun t _ => Bounded t) (start buffer reads) es) :
    Visits (step manager platform) (Safe manager) (start buffer reads) es :=
  visits_mono (fun _ h => h.safe)
    (visits_of_along (fun _ _ _ hs hC ht => inv_step hs hC ht) (inv_start hlen reads) h)

end Bounds

end Ong.SongHttp
