import Mathlib.Algebra.GroupWithZero.Nat
import Irip.Http.SafeClient

/-!
# `Http.ResponseSize` — how large a response may be

The declared length is compared first, and the body is counted chunk by chunk. But the chunks are counted only while
nobody has read them: the client below reads a whole body before it returns.
-/

namespace Irip.Http

/-! ## Counting -/

/-- The size of the body. -/
def Response.size (response : Response) : Nat := response.chunks.sum

/-- The header alone says that the body is too large. -/
def Response.Declares (response : Response) (maxSize : Nat) : Prop :=
  ∃ size, response.contentLength.bind pyInt? = some size ∧ (maxSize : Int) < size

theorem readChunks_none_iff (maxSize : Nat) :
    ∀ (chunks : List Nat) (total : Nat), total ≤ maxSize →
      (readChunks maxSize total chunks = none ↔ total + chunks.sum ≤ maxSize)
  | [], total, h => ⟨fun _ => by simpa using h, fun _ => rfl⟩
  | chunk :: chunks, total, _ => by
    rw [readChunks, List.sum_cons]
    split
    · next hlarge =>
      simp only [reduceCtorEq, false_iff]
      omega
    · next hsmall =>
      rw [readChunks_none_iff maxSize chunks (total + chunk) (by omega), Nat.add_assoc]

theorem readChunks_raises {maxSize : Nat} {e : Raised} :
    ∀ {chunks : List Nat} {total : Nat}, readChunks maxSize total chunks = some e → ∃ message, e = .tooLarge message
  | [], _, h => nomatch h
  | chunk :: chunks, total, h => by
    rw [readChunks] at h
    split at h
    · exact ⟨_, (Option.some.inj h).symm⟩
    · exact readChunks_raises h

/-- **When a response is returned**: its header is not too large, and it was read before or is small enough. -/
theorem readResponse_ok_iff {maxSize : Nat} {response r : Response} :
    readResponse maxSize response = .ok r ↔
      r = response ∧ ¬ response.Declares maxSize ∧ (response.consumed = true ∨ response.size ≤ maxSize) := by
  have hbody : readResponse.readBody maxSize response = .ok r ↔
      r = response ∧ (response.consumed = true ∨ response.size ≤ maxSize) := by
    unfold readResponse.readBody
    cases hread : response.consumed with
    | true => simp [eq_comm]
    | false =>
      have hcount := readChunks_none_iff maxSize response.chunks 0 (Nat.zero_le _)
      rw [Nat.zero_add] at hcount
      rw [if_neg Bool.false_ne_true]
      cases hchunks : readChunks maxSize 0 response.chunks with
      | none => simp [Response.size, hcount.mp hchunks, eq_comm]
      | some e =>
        have : ¬ response.chunks.sum ≤ maxSize := fun hle => by simp [hcount.mpr hle] at hchunks
        simp [Response.size, this]
  unfold readResponse Response.Declares
  split
  · next size hsize =>
    split
    · next hlarge => simp [hsize, hlarge]
    · next hsmall =>
      rw [hbody]
      simp [hsize, not_lt.mp hsmall]
  · next hnone =>
    rw [hbody]
    simp [hnone]

theorem readResponse_raises {maxSize : Nat} {response : Response} {e : Raised}
    (h : readResponse maxSize response = .error e) : ∃ message, e = .tooLarge message := by
  have hbody : readResponse.readBody maxSize response = .error e → ∃ message, e = .tooLarge message := by
    unfold readResponse.readBody
    intro h
    split at h
    · cases h
    · split at h
      · next hchunks =>
        obtain rfl := Except.error.inj h
        exact readChunks_raises hchunks
      · cases h
  unfold readResponse at h
  split at h
  · split at h
    · exact ⟨_, (Except.error.inj h).symm⟩
    · exact hbody h
  · exact hbody h

/-! ## The last response -/

/-- The `i`-th request, for this URL, is sent: the URL passes the checks and a connection is opened. -/
def Sent (w : World) (client : Client) (i : Nat) (url : String) (parsed : Url) : Prop :=
  checkUrl w client (w.validates i) url = .ok parsed ∧ ∃ c, connect w i parsed.host = .ok c

/-- The `i`-th request, for this URL, comes to this response, which is no redirect, maybe after some redirects. -/
inductive Leads (w : World) (client : Client) : Nat → String → Response → Prop where
  | answer {i url parsed} (hsent : Sent w client i url parsed) (hlast : (w.answer i).isRedirect = false) :
    Leads w client i url (w.answer i)
  | redirect {i url parsed r} (hsent : Sent w client i url parsed) (hredirect : (w.answer i).isRedirect = true)
    (hfew : i < maxRedirects) (hlocation : (w.answer i).location ≠ "")
    (hnext : Leads w client (i + 1) (redirectTarget parsed (w.answer i).location) r) : Leads w client i url r

/-- What the loop of `_request` keeps in mind: the response it will come to, and what has become of it. -/
def Leading (w : World) (client : Client) (url : String) (s : Progress) : Prop :=
  match s.outcome with
  | none => ∀ r, Leads w client s.redirectCount s.currentUrl r ↔ Leads w client 0 url r
  | some outcome =>
    (∀ r, Leads w client 0 url r → outcome = readResponse client.maxSize r) ∧
      ∀ r, outcome = .ok r → Leads w client 0 url r

section Leading

variable {w : World} {client : Client} {url : String} {s s' : Progress}

theorem Leading.finish {e : Raised} (h : ∀ r, ¬ Leads w client 0 url r) : Leading w client url (s.finish (.error e)) :=
  ⟨fun r hr => absurd hr (h r), fun _ hr => nomatch hr⟩

theorem Leading.follow {parsed : Url} (hnone : s.outcome = none)
    (h : ∀ r, Leads w client s.redirectCount s.currentUrl r ↔ Leads w client 0 url r)
    (hsent : Sent w client s.redirectCount s.currentUrl parsed) :
    Leading w client url (follow w client parsed s) := by
  have hparsed : ∀ {other}, Sent w client s.redirectCount s.currentUrl other → other = parsed := fun hother =>
    Except.ok.inj (hother.1.symm.trans hsent.1)
  unfold Http.follow
  dsimp only
  split
  · next hredirect =>
    split
    · next hmany =>
      refine Leading.finish (fun r hr => ?_)
      cases (h r).mpr hr with
      | answer _ hlast => simp [hlast] at hredirect
      | redirect _ _ hfew => omega
    · next hfew =>
      split
      · next hlocation =>
        refine Leading.finish (fun r hr => ?_)
        cases (h r).mpr hr with
        | answer _ hlast => simp [hlast] at hredirect
        | redirect _ _ _ hsome => exact hsome hlocation
      · next hlocation =>
        simp only [Leading, hnone]
        intro r
        rw [← h r]
        constructor
        · exact Leads.redirect hsent hredirect (by omega) hlocation
        · intro hr
          cases hr with
          | answer _ hlast => simp [hlast] at hredirect
          | redirect hother _ _ _ hnext =>
            obtain rfl := hparsed hother
            exact hnext
  · next hlast =>
    have hanswer : Leads w client s.redirectCount s.currentUrl (w.answer s.redirectCount) :=
      .answer hsent (by simpa using hlast)
    refine ⟨fun r hr => ?_, fun r hr => ?_⟩
    · cases (h r).mpr hr with
      | answer => rfl
      | redirect _ hredirect => exact absurd hredirect hlast
    · obtain ⟨rfl, -, -⟩ := readResponse_ok_iff.mp hr
      exact (h _).mp hanswer

/-- One turn of the loop of `_request`. -/
theorem Leading.turn (h : Leading w client url s) (hturn : turn w client s = some s') : Leading w client url s' := by
  unfold Http.turn at hturn
  split at hturn
  · cases hturn
  · next hnone =>
    rw [Leading, hnone] at h
    obtain rfl := Option.some.inj hturn
    -- a URL that is not sent leads nowhere
    have hstop : (∀ parsed, ¬ Sent w client s.redirectCount s.currentUrl parsed) → ∀ r, ¬ Leads w client 0 url r := by
      intro hunsent r hr
      cases (h r).mpr hr with
      | answer hsent | redirect hsent => exact hunsent _ hsent
    split
    · next hcheck =>
      refine Leading.finish (hstop (fun parsed hsent => ?_))
      rw [hsent.1] at hcheck
      cases hcheck
    · next parsed hcheck =>
      split
      · next hconnect =>
        refine Leading.finish (hstop (fun other hsent => ?_))
        obtain rfl := Except.ok.inj (hsent.1.symm.trans hcheck)
        obtain ⟨c, hc⟩ := hsent.2
        rw [hc] at hconnect
        cases hconnect
      · next c hconnect => exact Leading.follow hnone h ⟨hcheck, c, hconnect⟩

end Leading

/-- **What a call ends with**: the response that its requests lead to is read, and nothing else is returned. -/
theorem request_leads (w : World) (client : Client) (url : String) :
    ∃ outcome, (request w client url).outcome = some outcome ∧
      (∀ r, Leads w client 0 url r → outcome = readResponse client.maxSize r) ∧
      ∀ r, outcome = .ok r → Leads w client 0 url r := by
  have hstart : Leading w client url { currentUrl := url } := fun _ => Iff.rfl
  obtain ⟨hend, hstop⟩ := Loop.run_spec (turn_ends w client) (fun hturn h => Leading.turn h hturn) hstart
  show ∃ outcome, (Loop.run (turn_ends w client) { currentUrl := url }).outcome = some outcome ∧ _
  unfold Leading at hend
  cases houtcome : (Loop.run (turn_ends w client) { currentUrl := url }).outcome with
  | none =>
    rw [turn, houtcome] at hstop
    cases hstop
  | some outcome =>
    rw [houtcome] at hend
    exact ⟨outcome, rfl, hend⟩

/-! ## Result -/

/-- What `get`, `post` and `put` promise about the size of a response. -/
structure SizeBounded (w : World) (client : Client) (url : String) : Prop where
  returned : ∀ r, (request w client url).outcome = some (.ok r) → r.size ≤ client.maxSize
  refused : ∀ r, Leads w client 0 url r → client.maxSize < r.size →
    ∃ message, (request w client url).outcome = some (.error (.tooLarge message))

/-- **When the size of a response is bounded**: the response was not read before, or it is small, or its header says that
it is too large. -/
theorem sizeBounded_iff (w : World) (client : Client) (url : String) :
    SizeBounded w client url ↔
      ∀ r, Leads w client 0 url r → r.consumed = false ∨ r.size ≤ client.maxSize ∨ r.Declares client.maxSize := by
  obtain ⟨outcome, houtcome, hread, hreturned⟩ := request_leads w client url
  constructor
  · intro h r hr
    by_cases hdeclared : r.Declares client.maxSize
    · exact .inr (.inr hdeclared)
    · cases hconsumed : r.consumed with
      | false => exact .inl rfl
      | true =>
        have hok : readResponse client.maxSize r = .ok r := readResponse_ok_iff.mpr ⟨rfl, hdeclared, .inl hconsumed⟩
        exact .inr (.inl (h.returned r (by rw [houtcome, hread r hr, hok])))
  · intro h
    -- a response that is returned is small
    have hsmall : ∀ r, outcome = .ok r → r.size ≤ client.maxSize := by
      intro r hr
      have hleads := hreturned r hr
      obtain ⟨-, hdeclared, hsize⟩ := readResponse_ok_iff.mp ((hread r hleads).symm.trans hr)
      rcases h r hleads with hstream | hle | hdeclares
      · exact hsize.resolve_left (by simp [hstream])
      · exact hle
      · exact absurd hdeclares hdeclared
    refine ⟨fun r hr => hsmall r (Option.some.inj (houtcome.symm.trans hr)), fun r hr hlarge => ?_⟩
    cases hresult : readResponse client.maxSize r with
    | ok r' =>
      obtain ⟨rfl, -, -⟩ := readResponse_ok_iff.mp hresult
      have := hsmall r' ((hread r' hr).trans hresult)
      omega
    | error e =>
      obtain ⟨message, rfl⟩ := readResponse_raises hresult
      exact ⟨message, by rw [houtcome, hread r hr, hresult]⟩

/-- A server whose answers have no header, and are read when they are returned. -/
def unlabelled (size : Nat) : World :=
  { oneServer [.v4 (Ip.v4Of 93 184 216 34)] with answer _ := { consumed := true, chunks := [size] } }

/-- Two bytes are returned where one is allowed. -/
theorem unlabelled_unbounded :
    (∀ i, ((unlabelled 2).answer i).consumed = true) ∧
      ¬ SizeBounded (unlabelled 2) { maxSize := 1 } "http://example.org/" := by
  refine ⟨fun _ => rfl, fun h => ?_⟩
  obtain ⟨outcome, houtcome, hread, -⟩ := request_leads (unlabelled 2) { maxSize := 1 } "http://example.org/"
  have hsent : Sent (unlabelled 2) { maxSize := 1 } 0 "http://example.org/" { scheme := "http", host := "example.org" } :=
    ⟨rfl, _, rfl⟩
  have hbody := h.returned ((unlabelled 2).answer 0) (by rw [houtcome, hread _ (.answer hsent rfl)]; rfl)
  exact absurd hbody (by decide)

end Irip.Http
