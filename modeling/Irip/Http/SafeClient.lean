import Irip.Base.IpAddress
import Irip.Base.Loop
import Irip.Common

/-!
# `Http.SafeClient` — requests to hosts that were looked up and judged

Before each request the name of the host is resolved and an address is judged; the client below resolves the name again
when it connects. A redirect is followed by another turn of the same loop.
-/

namespace Irip.Http

open Ip

/-! ## Ranges -/

def privateNetworks : List Network :=
  [.v4 (v4Of 10 0 0 0) 8, .v4 (v4Of 172 16 0 0) 12, .v4 (v4Of 192 168 0 0) 16, .v4 (v4Of 169 254 0 0) 16,
   .v4 (v4Of 127 0 0 0) 8, .v4 (v4Of 0 0 0 0) 8, .v6 (v6Of [0, 0, 0, 0, 0, 0, 0, 1]) 128,
   .v6 (v6Of [0xfc00, 0, 0, 0, 0, 0, 0, 0]) 7, .v6 (v6Of [0xfe80, 0, 0, 0, 0, 0, 0, 0]) 10]

/-- `_is_private_ip`. -/
def isPrivate (ip : Address) : Bool := privateNetworks.any (fun net => net.contains ip)

/-- The address lies outside the private networks, also as an IPv4 address in an IPv6 address. -/
def Public (ip : Address) : Prop := isPrivate ip = false ∧ ∀ inner ∈ ip.embedded, isPrivate inner = false

instance (ip : Address) : Decidable (Public ip) := inferInstanceAs (Decidable (_ ∧ _))

/-! ## The world -/

/-- What the code reads of `httpx.URL`. -/
structure Url where
  scheme : String
  host : String
  port : Option Nat := none

/-- What the code reads of a response; the chunks are given by their sizes. -/
structure Response where
  isRedirect : Bool := false
  location : String := ""
  contentLength : Option String := none
  consumed : Bool := false
  chunks : List Nat := []

/-- Everything outside: how a URL is parsed, what a name resolves to at a time, when the host of the `i`-th request is
resolved to be judged and when it is resolved to connect, and what is answered. -/
structure World where
  url : String → Except String Url
  resolve : String → Nat → Except String (List Address)
  validates : Nat → Nat
  connects : Nat → Nat
  answer : Nat → Response

/-- `socket.getaddrinfo`: an address stands for itself. -/
def getaddrinfo (w : World) (host : String) (time : Nat) : Except String (List Address) :=
  match parse? host with
  | some ip => .ok [ip]
  | none => w.resolve host time

/-- The addresses that a connection to a host may go to. -/
def addresses (w : World) (host : String) (time : Nat) : List Address :=
  match getaddrinfo w host time with
  | .ok ips => ips
  | .error _ => []

/-! ## Judging -/

/-- What is raised. -/
inductive Raised where
  | ssrfBlocked (host : String) (ip : Address)
  | tooLarge (message : String)
  | value (message : String)
  | invalidUrl (message : String)
  | connect
deriving DecidableEq

/-- The second half of `_resolve_and_validate`: only the first address is judged. -/
def judgeResolved (w : World) (host : String) (time : Nat) : Except Raised Address :=
  match getaddrinfo w host time with
  | .error exc => .error (.value ("DNS resolution failed for " ++ host ++ ": " ++ exc))
  | .ok [] => .error (.value ("DNS resolution returned no addresses for " ++ host))
  | .ok (ip :: _) => if isPrivate ip then .error (.ssrfBlocked host ip) else .ok ip

def resolveAndValidate (w : World) (host : String) (time : Nat) : Except Raised Address :=
  match parse? host with
  | some ip =>
    -- what blocks an address is a `ValueError`, caught like that of a text that is no address
    if isPrivate ip then judgeResolved w host time else .ok ip
  | none =>
    if host = "" then .error (.value "Empty hostname") else judgeResolved w host time

theorem judgeResolved_ok_iff {w : World} {host : String} {time : Nat} {ip : Address} :
    judgeResolved w host time = .ok ip ↔ (addresses w host time).head? = some ip ∧ isPrivate ip = false := by
  unfold judgeResolved addresses
  split
  · next exc hexc => simp [hexc]
  · next hnone => simp [hnone]
  · next first rest hfirst =>
      rw [hfirst]
      split
      · next hprivate =>
          simp only [List.head?_cons, reduceCtorEq, false_iff]
          rintro ⟨hhead, hpublic⟩
          rw [← Option.some.inj hhead, hprivate] at hpublic
          cases hpublic
      · next hpublic =>
          constructor
          · intro h
            obtain rfl := Except.ok.inj h
            exact ⟨rfl, by simpa using hpublic⟩
          · rintro ⟨hhead, -⟩
            exact congrArg Except.ok (Option.some.inj hhead)

/-- What the check lets through: a host whose first address is outside the private networks. -/
theorem resolveAndValidate_ok_iff {w : World} {host : String} {time : Nat} {ip : Address} :
    resolveAndValidate w host time = .ok ip ↔
      host ≠ "" ∧ (addresses w host time).head? = some ip ∧ isPrivate ip = false := by
  unfold resolveAndValidate
  split
  · next literal hliteral =>
      have hhost : host ≠ "" := by
        rintro rfl
        rw [show parse? "" = none by decide +kernel] at hliteral
        cases hliteral
      have haddresses : addresses w host time = [literal] := by rw [addresses, getaddrinfo, hliteral]
      split
      · rw [judgeResolved_ok_iff, and_iff_right hhost]
      · next hpublic =>
          rw [haddresses, and_iff_right hhost]
          constructor
          · intro h
            obtain rfl := Except.ok.inj h
            exact ⟨rfl, by simpa using hpublic⟩
          · rintro ⟨hhead, -⟩
            exact congrArg Except.ok (Option.some.inj hhead)
  · split
    · next hempty => simp [hempty]
    · next hhost => rw [judgeResolved_ok_iff, and_iff_right hhost]

/-! ## Requests -/

/-- `SafeHTTPClient`, with `IRIP_ALLOW_PRIVATE_NETWORK` as it was when the client was made. -/
structure Client where
  allowPrivate : Bool := false
  maxSize : Nat := 10 * 1024 * 1024

def maxRedirects : Nat := 5

/-- A connection that is opened: to which host, when its address was judged and when the name was resolved again. -/
structure Connection where
  host : String
  validatedAt : Nat
  connectedAt : Nat
deriving DecidableEq

/-- The loop over the chunks, with what was read before. -/
def readChunks (maxSize : Nat) : Nat → List Nat → Option Raised
  | _, [] => none
  | total, chunk :: chunks =>
    if maxSize < total + chunk then
      some (.tooLarge ("Response too large: exceeded max " ++ toString maxSize ++ " bytes (received " ++
        toString (total + chunk) ++ " bytes so far)"))
    else readChunks maxSize (total + chunk) chunks

/-- The last part of `_request`, for a response that is no redirect. -/
def readResponse (maxSize : Nat) (response : Response) : Except Raised Response :=
  match response.contentLength.bind pyInt? with
  | some size =>
    if (maxSize : Int) < size then
      .error (.tooLarge ("Response too large: " ++ toString size ++ " bytes exceeds max " ++ toString maxSize ++ " bytes"))
    else readBody
  | none => readBody
where
  readBody : Except Raised Response :=
    if response.consumed then .ok response
    else
      match readChunks maxSize 0 response.chunks with
      | some e => .error e
      | none => .ok response

def startsWith (text start : String) : Bool := start.toList.isPrefixOf text.toList

/-- The URL that a redirect leads to. -/
def redirectTarget (parsed : Url) (location : String) : String :=
  if startsWith location "/" then parsed.scheme ++ "://" ++ parsed.host ++ location
  else if !(startsWith location "http://" || startsWith location "https://") then
    parsed.scheme ++ "://" ++ parsed.host ++ "/" ++ location
  else location

/-- The variables of `_request`, the connections so far, and what it ended with. -/
structure Progress where
  currentUrl : String
  redirectCount : Nat := 0
  connections : List Connection := []
  outcome : Option (Except Raised Response) := none

def Progress.finish (s : Progress) (outcome : Except Raised Response) : Progress := { s with outcome := some outcome }

/-- The protocol check and the judging of the host: the parsed URL. -/
def checkUrl (w : World) (client : Client) (time : Nat) (url : String) : Except Raised Url :=
  match w.url url with
  | .error message => .error (.invalidUrl message)
  | .ok parsed =>
    if parsed.scheme ∉ ["http", "https"] then
      .error (.value ("Unsupported URL scheme: " ++ parsed.scheme ++ " (only http/https allowed)"))
    else if client.allowPrivate then .ok parsed
    else
      match resolveAndValidate w parsed.host time with
      | .error e => .error e
      | .ok _ => .ok parsed

/-- The connection of the `i`-th request, where the name resolves to anything. -/
def connect (w : World) (i : Nat) (host : String) : Except Raised Connection :=
  if addresses w host (w.connects i) = [] then .error .connect
  else .ok { host := host, validatedAt := w.validates i, connectedAt := w.connects i }

/-- What becomes of the answer: it is read, or followed. -/
def follow (w : World) (client : Client) (parsed : Url) (s : Progress) : Progress :=
  let response := w.answer s.redirectCount
  if response.isRedirect then
    if maxRedirects < s.redirectCount + 1 then
      s.finish (.error (.value ("Too many redirects (max " ++ toString maxRedirects ++ ")")))
    else if response.location = "" then s.finish (.error (.value "Redirect response missing location header"))
    else { s with currentUrl := redirectTarget parsed response.location, redirectCount := s.redirectCount + 1 }
  else s.finish (readResponse client.maxSize response)

/-- One turn of the loop of `_request`. -/
def turn (w : World) (client : Client) (s : Progress) : Option Progress :=
  match s.outcome with
  | some _ => none
  | none =>
    some (match checkUrl w client (w.validates s.redirectCount) s.currentUrl with
      | .error e => s.finish (.error e)
      | .ok parsed =>
        match connect w s.redirectCount parsed.host with
        | .error e => s.finish (.error e)
        | .ok connection => follow w client parsed { s with connections := s.connections ++ [connection] })

/-- How far a loop is from its end. -/
def Progress.left (s : Progress) : Nat := if s.outcome.isSome then 0 else maxRedirects + 1 - s.redirectCount + 1

/-- A connection whose host passed the check. -/
def Checked (w : World) (c : Connection) : Prop := ∃ ip, resolveAndValidate w c.host c.validatedAt = .ok ip

section Turns

variable {w : World} {client : Client} {s s' : Progress}

theorem checked_of_checkUrl (hstrict : client.allowPrivate = false) {i : Nat} {url : String} {parsed : Url}
    {c : Connection} (hcheck : checkUrl w client (w.validates i) url = .ok parsed)
    (hconnect : connect w i parsed.host = .ok c) : Checked w c := by
  have hparsed : ∃ ip, resolveAndValidate w parsed.host (w.validates i) = .ok ip := by
    unfold checkUrl at hcheck
    split at hcheck
    · cases hcheck
    · split at hcheck
      · cases hcheck
      · rw [hstrict, if_neg Bool.false_ne_true] at hcheck
        split at hcheck
        · cases hcheck
        · next ip hip =>
            obtain rfl := Except.ok.inj hcheck
            exact ⟨ip, hip⟩
  unfold connect at hconnect
  split at hconnect
  · cases hconnect
  · obtain rfl := Except.ok.inj hconnect
    exact hparsed

theorem follow_cases (w : World) (client : Client) (parsed : Url) (s : Progress) :
    (follow w client parsed s).connections = s.connections ∧
      ((follow w client parsed s).outcome.isSome ∧ (follow w client parsed s).redirectCount = s.redirectCount ∨
        (follow w client parsed s).outcome = s.outcome ∧
          (follow w client parsed s).redirectCount = s.redirectCount + 1 ∧ s.redirectCount < maxRedirects) := by
  unfold follow
  dsimp only
  split
  · split
    · exact ⟨rfl, .inl ⟨rfl, rfl⟩⟩
    · next hfew =>
        split
        · exact ⟨rfl, .inl ⟨rfl, rfl⟩⟩
        · exact ⟨rfl, .inr ⟨rfl, rfl, by omega⟩⟩
  · exact ⟨rfl, .inl ⟨rfl, rfl⟩⟩

/-- **What one turn does**: it opens no connection or one more, and ends the loop or counts a redirect. -/
theorem turn_cases (hturn : turn w client s = some s') :
    s.outcome = none ∧
      (s'.connections = s.connections ∨
        ∃ c, (client.allowPrivate = false → Checked w c) ∧ s'.connections = s.connections ++ [c]) ∧
      (s'.outcome.isSome ∧ s'.redirectCount = s.redirectCount ∨
        s'.outcome = none ∧ s'.redirectCount = s.redirectCount + 1 ∧ s.redirectCount < maxRedirects) := by
  unfold turn at hturn
  split at hturn
  · cases hturn
  · next hnone =>
      have hs := Option.some.inj hturn
      refine ⟨hnone, ?_⟩
      split at hs
      · subst hs
        exact ⟨.inl rfl, .inl ⟨rfl, rfl⟩⟩
      · next parsed hcheck =>
          split at hs
          · subst hs
            exact ⟨.inl rfl, .inl ⟨rfl, rfl⟩⟩
          · next c hconnect =>
              subst hs
              obtain ⟨hconns, hend⟩ := follow_cases w client parsed { s with connections := s.connections ++ [c] }
              refine ⟨.inr ⟨c, fun hstrict => checked_of_checkUrl hstrict hcheck hconnect, hconns⟩, ?_⟩
              rw [← hnone]
              exact hend

/-- **The redirect loop ends.** -/
theorem turn_ends (w : World) (client : Client) : Loop.Ends (turn w client) := by
  refine Loop.ends_of_decreases Progress.left (fun _ => 0) (fun {s s'} hturn => .inl ?_)
  obtain ⟨hnone, -, hend | ⟨hgoes, hcount, hfew⟩⟩ := turn_cases hturn
  · rw [Progress.left, if_pos hend.1, Progress.left, hnone]
    exact Nat.succ_pos _
  · rw [Progress.left, hgoes, Progress.left, hnone, hcount]
    show maxRedirects + 1 - (s.redirectCount + 1) + 1 < maxRedirects + 1 - s.redirectCount + 1
    omega

/-- What holds along the loop: every connection was checked, and there is at most one for each redirect and one more. -/
structure Bounded (w : World) (client : Client) (s : Progress) : Prop where
  checked : client.allowPrivate = false → ∀ c ∈ s.connections, Checked w c
  few : s.connections.length + (if s.outcome.isSome then 0 else 1) ≤ s.redirectCount + 1
  count : s.redirectCount ≤ maxRedirects

theorem Bounded.turn (h : Bounded w client s) (hturn : turn w client s = some s') : Bounded w client s' := by
  obtain ⟨hnone, hconns, hend⟩ := turn_cases hturn
  have hfew : s.connections.length + 1 ≤ s.redirectCount + 1 := by
    have := h.few
    rw [hnone] at this
    exact this
  have hlength : s'.connections.length ≤ s.connections.length + 1 := by
    rcases hconns with hsame | ⟨c, -, hmore⟩
    · rw [hsame]
      omega
    · rw [hmore, List.length_append, List.length_singleton]
  refine ⟨fun hstrict c hc => ?_, ?_, ?_⟩
  · rcases hconns with hsame | ⟨c', hchecked, hmore⟩
    · exact h.checked hstrict c (hsame ▸ hc)
    · rw [hmore] at hc
      rcases List.mem_append.mp hc with hold | hnew
      · exact h.checked hstrict c hold
      · rw [List.mem_singleton.mp hnew]
        exact hchecked hstrict
  · rcases hend with ⟨hends, hcount⟩ | ⟨hgoes, hcount, -⟩
    · rw [if_pos hends]
      omega
    · rw [hgoes]
      show s'.connections.length + 1 ≤ _
      omega
  · have hbound := h.count
    rcases hend with ⟨-, hcount⟩ | ⟨-, hcount, hlt⟩
    · omega
    · omega

end Turns

/-- `_request`, which `get`, `post` and `put` call. -/
def request (w : World) (client : Client) (url : String) : Progress :=
  Loop.run (turn_ends w client) { currentUrl := url }

/-- `stream`, up to the response that is handed out: redirects are not followed. -/
def stream (w : World) (client : Client) (url : String) : Progress :=
  let s : Progress := { currentUrl := url }
  match checkUrl w client (w.validates 0) url with
  | .error e => s.finish (.error e)
  | .ok parsed =>
    match connect w 0 parsed.host with
    | .error e => s.finish (.error e)
    | .ok connection => { s with connections := [connection], outcome := some (.ok (w.answer 0)) }

/-- How the client is called. -/
inductive Entry where
  | request
  | stream

/-- The connections that are opened for a call. -/
def opened (w : World) (client : Client) (url : String) : Entry → List Connection
  | .request => (request w client url).connections
  | .stream => (stream w client url).connections

/-! ## Safety -/

/-- Whatever address a connection goes to was judged and is public. -/
def Safe (w : World) (c : Connection) : Prop :=
  ∀ ip ∈ addresses w c.host c.connectedAt, resolveAndValidate w c.host c.validatedAt = .ok ip ∧ Public ip

/-- When the client connects, the host resolves to nothing but the address that came first when it was judged, and that
address embeds none from a private network. -/
def Settled (w : World) (c : Connection) : Prop :=
  ∀ ip ∈ addresses w c.host c.connectedAt,
    (addresses w c.host c.validatedAt).head? = some ip ∧ ∀ inner ∈ ip.embedded, isPrivate inner = false

theorem Checked.safe_iff {w : World} {c : Connection} (h : Checked w c) : Safe w c ↔ Settled w c := by
  obtain ⟨judged, hjudged⟩ := h
  obtain ⟨hhost, hhead, hpublic⟩ := resolveAndValidate_ok_iff.mp hjudged
  refine forall₂_congr (fun ip _ => ?_)
  rw [resolveAndValidate_ok_iff, and_iff_right hhost]
  constructor
  · rintro ⟨⟨hfirst, -⟩, hip⟩
    exact ⟨hfirst, hip.2⟩
  · rintro ⟨hfirst, hinner⟩
    have hsame : ip = judged := Option.some.inj (hfirst.symm.trans hhead)
    have hip : isPrivate ip = false := hsame ▸ hpublic
    exact ⟨⟨hfirst, hip⟩, hip, hinner⟩

theorem opened_spec (w : World) (client : Client) (url : String) (entry : Entry) :
    (client.allowPrivate = false → ∀ c ∈ opened w client url entry, Checked w c) ∧
      (opened w client url entry).length ≤ maxRedirects + 1 := by
  cases entry with
  | request =>
    have hstart : Bounded w client { currentUrl := url } :=
      ⟨fun _ c hc => absurd hc List.not_mem_nil, Nat.le_refl 1, Nat.zero_le _⟩
    obtain ⟨hend, -⟩ := Loop.run_spec (turn_ends w client) (fun hturn h => Bounded.turn h hturn) hstart
    refine ⟨hend.checked, ?_⟩
    have hfew := hend.few
    have hcount := hend.count
    show (request w client url).connections.length ≤ _
    unfold request
    omega
  | stream =>
    unfold opened stream
    dsimp only
    split
    · exact ⟨fun _ c hc => absurd hc List.not_mem_nil, Nat.zero_le _⟩
    · next parsed hcheck =>
        split
        · exact ⟨fun _ c hc => absurd hc List.not_mem_nil, Nat.zero_le _⟩
        · next c hconnect =>
            refine ⟨fun hstrict c' hc' => ?_, Nat.succ_le_succ (Nat.zero_le _)⟩
            rw [List.mem_singleton.mp hc']
            exact checked_of_checkUrl hstrict hcheck hconnect

/-- **When every connection is safe**: the redirect loop ends with at most six connections, and those of a call are all
safe exactly if the name of each of their hosts is settled. -/
theorem connections_safe_iff (w : World) {client : Client} (hstrict : client.allowPrivate = false) (url : String)
    (entry : Entry) :
    Loop.Ends (turn w client) ∧ (opened w client url entry).length ≤ maxRedirects + 1 ∧
      ((∀ c ∈ opened w client url entry, Safe w c) ↔ ∀ c ∈ opened w client url entry, Settled w c) := by
  obtain ⟨hchecked, hfew⟩ := opened_spec w client url entry
  exact ⟨turn_ends w client, hfew, forall₂_congr (fun c hc => (hchecked hstrict c hc).safe_iff)⟩

/-- A world with one server, whose name resolves to the given addresses. -/
def oneServer (ips : List Address) : World where
  url _ := .ok { scheme := "http", host := "example.org" }
  resolve _ _ := .ok ips
  validates i := 2 * i
  connects i := 2 * i + 1
  answer _ := {}

/-- The name has one address, in no private network. -/
theorem single_address_safe :
    List.Forall (Safe (oneServer [.v4 (v4Of 93 184 216 34)]))
      (opened (oneServer [.v4 (v4Of 93 184 216 34)]) {} "http://example.org/" .stream) :=
  List.forall_iff_forall_mem.mpr ((@connections_safe_iff _ {} rfl _ .stream).2.2.mpr (by
    unfold Settled
    decide +kernel))

/-- The name has a second address, in a private network, and only the first is judged. -/
theorem second_address_unjudged :
    ¬ ∀ (w : World) (client : Client), client.allowPrivate = false → ∀ (url : String) (entry : Entry),
      ∀ c ∈ opened w client url entry, Safe w c := by
  intro hall
  have hsafe := hall (oneServer [.v4 (v4Of 93 184 216 34), .v4 (v4Of 10 0 0 1)]) {} rfl "http://example.org/" .stream
    ⟨"example.org", 0, 1⟩ (by decide +kernel)
  have hsecond := (hsafe (.v4 (v4Of 10 0 0 1)) (by decide +kernel)).2.1
  exact absurd hsecond (by decide +kernel)

end Irip.Http
