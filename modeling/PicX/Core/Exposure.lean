import PicX.Core.Validate

/-!
# Who reaches the administrative surface

Validation decides by the text of the administrative address whether only this host can reach it;
the listener parses the address and binds it. The two readings agree on every address that can be
bound: where the text is taken for a loopback address, the bound IP is one.

* `isLoopback_bound`: an address that parses and reads as loopback is a loopback address.
* **`admin_exposure`**: outside development an administrative surface that is up is bound to a
  loopback address, or demands a client certificate and answers only the peers named for it.
-/

namespace PicX.Core

open PicX.Net (SocketAddr IpAddr Ipv4Addr Ipv6Addr readIpv4Addr readIpv6Addr readOctet)

/-! ## The host as it is written -/

/-- The characters of the host that a listen address writes before its last colon. -/
theorem hostOf_eq {address : String} {l digits : List Char}
    (h : address.toList = l ++ ':' :: digits) (hdigits : ':' ∉ digits) :
    hostOf address =
      trimEndMatches (· = ']') (trimStartMatches (· = '[') (trim (String.ofList l))) := by
  rw [hostOf, rsplitOnce_append h hdigits]

/-- White space and opening brackets are all that is cut off before the host. -/
theorem trimmed_split (s : String) : ∃ before after : List Char,
    s.toList = before ++
      (trimEndMatches (· = ']') (trimStartMatches (· = '[') (trim s))).toList ++ after ∧
      ∀ c ∈ before, isWhitespace c = true ∨ c = '[' := by
  obtain ⟨before, after, hs, hbefore, _⟩ := exists_padding s
  have hstart : (trim s).toList.takeWhile (· = '[') ++ (trim s).toList.dropWhile (· = '[') =
      (trim s).toList := List.takeWhile_append_dropWhile
  have hend : ((trim s).toList.dropWhile (· = '[')).rdropWhile (· = ']') ++
      ((trim s).toList.dropWhile (· = '[')).rtakeWhile (· = ']') =
      (trim s).toList.dropWhile (· = '[') := List.rdropWhile_append_rtakeWhile
  refine ⟨before ++ (trim s).toList.takeWhile (· = '['),
    ((trim s).toList.dropWhile (· = '[')).rtakeWhile (· = ']') ++ after, ?_, ?_⟩
  · rw [trimEndMatches, trimStartMatches, String.toList_ofList, String.toList_ofList,
      List.append_assoc, ← List.append_assoc (List.rdropWhile _ _), hend, ← List.append_assoc,
      List.append_assoc before, hstart, ← hs]
  · intro c hc
    rcases List.mem_append.mp hc with hc | hc
    · exact .inl (hbefore c hc)
    · exact .inr (by simpa using List.mem_takeWhile_imp hc)

theorem hostOf_isPrefix {address : String} {l digits : List Char} {c : Char}
    (h : address.toList = c :: l ++ ':' :: digits) (hdigits : ':' ∉ digits)
    (hvisible : isWhitespace c = false) (hbracket : c ≠ '[') :
    (hostOf address).toList <+: address.toList := by
  obtain ⟨before, after, hsplit, hbefore⟩ := trimmed_split (String.ofList (c :: l))
  rw [← hostOf_eq h hdigits, String.toList_ofList] at hsplit
  cases before with
  | nil =>
    rw [h, hsplit, List.nil_append, List.append_assoc]
    exact List.prefix_append _ _
  | cons d before =>
    simp only [List.cons_append, List.cons.injEq] at hsplit
    rcases hbefore d List.mem_cons_self with hd | hd
    · rw [← hsplit.1, hvisible] at hd
      cases hd
    · exact absurd (hsplit.1.trans hd) hbracket

/-- What stands between brackets starts with the host, and a closing bracket follows it. -/
theorem hostOf_bracketed {address : String} {host digits : List Char}
    (h : address.toList = '[' :: host ++ ']' :: ':' :: digits) (hdigits : ':' ∉ digits)
    (hhost : (host ++ [']']).head? ≠ some '[') :
    ∃ more, host ++ ']' :: ':' :: digits = (hostOf address).toList ++ ']' :: more := by
  have hsplit : address.toList = ('[' :: host ++ [']']) ++ ':' :: digits := by
    rw [h, List.append_assoc]
    rfl
  have htrim : trim (String.ofList ('[' :: host ++ [']'])) = String.ofList ('[' :: host ++ [']']) :=
    trim_of_visible (by simp) (by simp; decide) (by simp; decide)
  have hstart : ('[' :: host ++ [']']).dropWhile (· = '[') = host ++ [']'] := by
    rw [List.cons_append, List.dropWhile_cons_of_pos (by simp), List.dropWhile_eq_self_iff]
    intro hpos hfirst
    refine hhost ?_
    rw [List.head?_eq_getElem?, List.getElem?_eq_getElem hpos]
    exact congrArg some (of_decide_eq_true hfirst)
  have hname : (hostOf address).toList = host.rdropWhile (· = ']') := by
    rw [hostOf_eq hsplit hdigits, htrim, trimStartMatches, trimEndMatches, String.toList_ofList,
      String.toList_ofList, String.toList_ofList, hstart,
      rdropWhile_append_of_all host (by simp)]
  have hclosing : ∀ c ∈ host.rtakeWhile (· = ']'), c = ']' := by
    intro c hc
    simpa using List.mem_rtakeWhile_imp hc
  have hparts : host = (hostOf address).toList ++ host.rtakeWhile (· = ']') := by
    rw [hname]
    exact List.rdropWhile_append_rtakeWhile.symm
  cases hrest : host.rtakeWhile (· = ']') with
  | nil =>
    rw [hrest, List.append_nil] at hparts
    exact ⟨':' :: digits, congrArg (· ++ ']' :: ':' :: digits) hparts⟩
  | cons c rest =>
    have hc : c = ']' := hclosing c (hrest ▸ List.mem_cons_self)
    rw [hrest, hc] at hparts
    refine ⟨rest ++ ']' :: ':' :: digits, ?_⟩
    calc host ++ ']' :: ':' :: digits
        = ((hostOf address).toList ++ ']' :: rest) ++ ']' :: ':' :: digits :=
          congrArg (· ++ ']' :: ':' :: digits) hparts
      _ = (hostOf address).toList ++ ']' :: (rest ++ ']' :: ':' :: digits) := by simp

/-! ## The IPv4 reading -/

theorem readIpv4Addr_loopback {more rest : List Char} {ip : Ipv4Addr}
    (h : readIpv4Addr ('1' :: '2' :: '7' :: '.' :: more) = some (ip, rest)) :
    ip.isLoopback = true := by
  obtain ⟨a, b, c, d, cs₁, cs₂, cs₃, ha, hb, hc, hd, rfl⟩ := Net.readIpv4Addr_eq_some h
  have hfirst : readOctet 0 ('1' :: '2' :: '7' :: '.' :: more) = some (127, '.' :: more) := rfl
  rw [hfirst] at ha
  cases ha
  have hb' := Net.readOctet_lt hb
  have hc' := Net.readOctet_lt hc
  have hd' := Net.readOctet_lt hd
  simp only [Ipv4Addr.isLoopback, Ipv4Addr.ofOctets, BitVec.toNat_ofNat, beq_iff_eq]
  omega

/-! ## The IPv6 reading -/

theorem readIpv6Addr_bracket (more : List Char) : readIpv6Addr ('[' :: more) = none := rfl

theorem readIpv6Addr_letter (more : List Char) : readIpv6Addr ('l' :: more) = none := rfl

theorem readIpv6Addr_one (more : List Char) :
    readIpv6Addr (':' :: ':' :: '1' :: ']' :: more) =
      some (.ofGroups [0, 0, 0, 0, 0, 0, 0, 1], ']' :: more) := rfl

/-- What starts as an IPv4 loopback address is no IPv6 address. -/
theorem readIpv6Addr_dotted (more : List Char) :
    readIpv6Addr ('1' :: '2' :: '7' :: '.' :: more) = none := by
  have hone : Net.readSeparator ':' 0 (Net.readNumber 16 (some 4) true 65536)
      ('1' :: '2' :: '7' :: '.' :: more) = some (0x127, '.' :: more) := rfl
  have hgroups : ∃ flag head rest,
      Net.readGroups 8 0 ('1' :: '2' :: '7' :: '.' :: more) = ((head, flag), rest) ∧
        head.length < 8 ∧ (flag = true ∨ rest = '.' :: more) := by
    rw [Net.readGroups]
    split
    · next v4 rest _ => exact ⟨true, _, rest, rfl, by simp, .inl rfl⟩
    · rw [hone]
      exact ⟨false, [0x127], '.' :: more, rfl, by simp, .inr rfl⟩
  obtain ⟨flag, head, rest, hread, hlength, hcases⟩ := hgroups
  rw [readIpv6Addr, hread]
  rcases hcases with rfl | rfl
  · simp [Nat.ne_of_lt hlength]
  · cases flag
    · simp only [Nat.ne_of_lt hlength, if_false]
      rfl
    · simp [Nat.ne_of_lt hlength]

/-! ## The two readings -/

theorem startsWith_eq_true {p s : String} (h : startsWith p s = true) :
    ∃ rest, s.toList = p.toList ++ rest := by
  rw [startsWith, stripPrefix] at h
  by_cases hp : p.toList.isPrefixOf s.toList = true
  · obtain ⟨rest, hrest⟩ := List.isPrefixOf_iff_prefix.mp hp
    exact ⟨rest, hrest.symm⟩
  · rw [if_neg hp] at h
    cases h

/-- The hosts the text of an address is taken for loopback by. -/
theorem isLoopback_cases {address : String} (h : isLoopback address = true) :
    (hostOf address).toList = "localhost".toList ∨ (hostOf address).toList = "::1".toList ∨
      ∃ rest, (hostOf address).toList = "127.".toList ++ rest := by
  simp only [isLoopback, Bool.or_eq_true, beq_iff_eq] at h
  rcases h with (h | h) | h
  · exact .inl (congrArg String.toList h)
  · exact .inr (.inl (congrArg String.toList h))
  · exact .inr (.inr (startsWith_eq_true h))

theorem digit_plain {c : Char} (h : Net.isDigitOf 10 c = true) :
    isWhitespace c = false ∧ c ≠ '[' ∧ c ≠ 'l' ∧ c ≠ ':' := by
  have hne : ∀ d : Char, Net.isDigitOf 10 d = false → c ≠ d := by
    intro d hd hcd
    rw [← hcd, h] at hd
    cases hd
  refine ⟨?_, hne _ (by decide), hne _ (by decide), hne _ (by decide)⟩
  have hrange : 48 ≤ c.toNat ∧ c.toNat ≤ 57 := by
    rw [Net.isDigitOf, Net.toDigit] at h
    split_ifs at h with h0 ha hA
    · exact ⟨h0.1, h0.2⟩
    · simp only [Option.bind_some, Option.isSome_ite] at h
      omega
    · simp only [Option.bind_some, Option.isSome_ite] at h
      omega
    · cases h
  simp only [isWhitespace, Bool.or_eq_false_iff, Bool.and_eq_false_iff, decide_eq_false_iff_not,
    beq_eq_false_iff_ne]
  omega

theorem readIpv4Addr_head {cs rest : List Char} {ip : Ipv4Addr}
    (h : readIpv4Addr cs = some (ip, rest)) :
    ∃ c cs', cs = c :: cs' ∧ Net.isDigitOf 10 c = true := by
  obtain ⟨a, b, c, d, cs₁, cs₂, cs₃, ha, _⟩ := Net.readIpv4Addr_eq_some h
  cases cs with
  | nil => cases ha
  | cons c cs' =>
    refine ⟨c, cs', rfl, ?_⟩
    by_contra hc
    have hnone : readOctet 0 (c :: cs') = none := by
      simp [readOctet, Net.readSeparator, Net.readNumber, hc]
    rw [hnone] at ha
    cases ha

theorem isLoopback_v4 {address : String} {ip : Ipv4Addr} {digits : List Char}
    (hread : readIpv4Addr address.toList = some (ip, ':' :: digits)) (hdigits : ':' ∉ digits)
    (h : isLoopback address = true) : ip.isLoopback = true := by
  obtain ⟨c, cs, hcs, hc⟩ := readIpv4Addr_head hread
  obtain ⟨taken, htaken⟩ := Net.readIpv4Addr_suffix _ _ _ hread
  have hplain := digit_plain hc
  cases taken with
  | nil =>
    rw [hcs, List.nil_append, List.cons.injEq] at htaken
    exact absurd htaken.1.symm hplain.2.2.2
  | cons c' l =>
    have hc' : c' = c := by
      rw [hcs, List.cons_append, List.cons.injEq] at htaken
      exact htaken.1
    obtain ⟨after, hafter⟩ := hostOf_isPrefix (hc' ▸ htaken.symm) hdigits hplain.1 hplain.2.1
    rcases isLoopback_cases h with hhost | hhost | ⟨rest, hhost⟩
    · rw [hhost, hcs] at hafter
      exact absurd (List.cons.inj hafter).1.symm hplain.2.2.1
    · rw [hhost, hcs] at hafter
      exact absurd (List.cons.inj hafter).1.symm hplain.2.2.2
    · rw [← hafter, hhost, List.append_assoc] at hread
      exact readIpv4Addr_loopback hread

theorem isLoopback_v6 {address : String} {ip : Ipv6Addr} {inner host rest digits : List Char}
    (haddress : address.toList = '[' :: inner) (hread : readIpv6Addr inner = some (ip, rest))
    (hinner : inner = host ++ ']' :: ':' :: digits) (hdigits : ':' ∉ digits)
    (h : isLoopback address = true) : ip.isLoopback = true := by
  have hhead : (host ++ [']']).head? ≠ some '[' := by
    intro hopen
    cases host with
    | nil => cases hopen
    | cons c host =>
      simp only [List.cons_append, List.head?_cons, Option.some.injEq] at hopen
      rw [hinner, hopen, List.cons_append, readIpv6Addr_bracket] at hread
      cases hread
  obtain ⟨more, hmore⟩ :=
    hostOf_bracketed (haddress.trans (congrArg ('[' :: ·) hinner)) hdigits hhead
  rw [hinner, hmore] at hread
  rcases isLoopback_cases h with hhost | hhost | ⟨dotted, hhost⟩
  · rw [hhost] at hread
    cases (readIpv6Addr_letter _).symm.trans hread
  · rw [hhost] at hread
    have hone := (readIpv6Addr_one more).symm.trans hread
    simp only [Option.some.injEq, Prod.mk.injEq] at hone
    rw [← hone.1]
    decide
  · rw [hhost, List.append_assoc] at hread
    cases (readIpv6Addr_dotted _).symm.trans hread

/-- An address that parses and is taken for loopback by its text is a loopback address. -/
theorem isLoopback_bound {address : String} {a : SocketAddr}
    (hparse : SocketAddr.parse address = some a) (h : isLoopback address = true) :
    a.ip.isLoopback = true := by
  rcases Net.parse_cases hparse with hread | hread
  · obtain ⟨ip, port, digits, rfl, hip, hdigits⟩ := Net.readSocketAddrV4_end hread
    exact isLoopback_v4 hip hdigits h
  · obtain ⟨ip, port, scopeId, inner, host, rest, digits, rfl, hcs, hip, hinner, hdigits⟩ :=
      Net.readSocketAddrV6_end hread
    exact isLoopback_v6 hcs hip hinner hdigits h

/-! ## The administrative surface -/

theorem start_bound {t : Transport} {listening : Listening} {surface : Surface}
    (h : listening.start t = .ok surface) :
    ∃ a, SocketAddr.parse listening.address = some a ∧ surface.bound.ip = a.ip ∧
      surface.clientAuth = (listening.tls.map clientAuth).getD .none := by
  rw [Listening.start] at h
  split at h
  · exact absurd (withContext_ok.mp h) (by simp [bail])
  · next a hparse =>
    obtain ⟨port, _, h⟩ := bind_ok.mp h
    have hsurface : surface = ⟨Net.SocketAddr.withPort port a,
        (listening.tls.map clientAuth).getD .none,
        gateOf ((listening.tls.map (·.allow)).getD [])⟩ := by
      cases htls : listening.tls with
      | none =>
        rw [htls] at h
        obtain ⟨_, _, h⟩ := bind_ok.mp h
        exact (pure_ok.mp h).symm
      | some tls =>
        rw [htls] at h
        obtain ⟨_, _, h⟩ := bind_ok.mp h
        exact (pure_ok.mp h).symm
    refine ⟨a, hparse, ?_, congrArg Surface.clientAuth hsurface⟩
    rw [hsurface]
    cases a <;> rfl

theorem answer_handled {s : AdminService} {policy : Authorization}
    (hpolicy : s.policy = some policy)
    {peer : Option PeerIdentity} {recorded : Bool} (h : s.answer peer recorded = .handled) :
    policy.permits peer = true := by
  have hinner : policy.authorize peer recorded = .handled := by
    rw [AdminService.answer, hpolicy] at h
    cases hgate : s.gate with
    | none =>
      rw [hgate] at h
      exact h
    | some allow =>
      rw [hgate] at h
      dsimp only at h
      split_ifs at h
      exact h
  by_contra hnot
  rw [Authorization.authorize, if_neg hnot] at hinner
  cases hinner

/-- A client authority stays one when its path is resolved. -/
theorem mutual_secured {c : Config} (h : c.adminTls.any TlsSettings.isMutual = true) :
    (∃ clientCa crl,
      ((c.resolvedTls c.adminTls).map clientAuth).getD .none = .required clientCa crl) ∧
      AdminService.serving c (c.resolvedTls c.adminTls) =
        some ⟨c.adminAllow, c.developmentMode⟩ := by
  cases htls : c.adminTls with
  | none =>
    rw [htls] at h
    cases h
  | some tls =>
    rw [htls, Option.any_some, TlsSettings.isMutual] at h
    obtain ⟨ca, hca⟩ := Option.isSome_iff_exists.mp h
    constructor
    · exact ⟨resolvePath c.workingDirectory ca, tls.crl.map (resolvePath c.workingDirectory), by
        simp [Config.resolvedTls, TlsSettings.resolvedIn, clientAuth, hca]⟩
    · simp [AdminService.serving, Config.resolvedTls, TlsSettings.resolvedIn,
        TlsSettings.isMutual, hca]

theorem permits_allowed {policy : Authorization} {peer : Option PeerIdentity}
    (h : policy.permits peer = true) (hallow : policy.allowed ≠ []) :
    ∃ p, peer = some p ∧ p.isAllowedBy policy.allowed = true := by
  cases peer with
  | none => cases h
  | some p =>
    rw [Authorization.permits, if_neg (by simpa using hallow)] at h
    exact ⟨p, rfl, h⟩

/-- **The administrative surface is local, or answers the peers named for it.** Whatever starts
from a configuration that validation accepts outside development is bound to a loopback address,
or its handshake demands a client certificate and a handler runs for an allowed peer only. -/
theorem admin_exposure {isFile : String → Bool} {c : Config} (hvalid : c.validate isFile = .ok ())
    (hdevelopment : c.developmentMode = false) {t : Transport} {surface : Surface}
    {service : AdminService} (hstart : AdminService.start t c = .ok (some (surface, service))) :
    surface.bound.ip.isLoopback = true ∨
      (∃ clientCa crl, surface.clientAuth = .required clientCa crl) ∧ c.adminAllow ≠ [] ∧
        ∀ peer recorded, service.answer peer recorded = .handled →
          ∃ p, peer = some p ∧ p.isAllowedBy c.adminAllow = true := by
  have hadmin := (validate_checked hvalid).adminAccess
  rw [Config.validateAdminAccess] at hadmin
  rw [AdminService.start] at hstart
  cases haddr : c.adminAddr with
  | none =>
    rw [haddr] at hstart
    cases hstart
  | some address =>
    rw [haddr] at hstart hadmin
    obtain ⟨started, hlisten, hpair⟩ := bind_ok.mp hstart
    cases pure_ok.mp hpair
    obtain ⟨a, hparse, hbound, hauth⟩ := start_bound (withContext_ok.mp hlisten)
    dsimp only at hadmin hparse hauth
    split_ifs at hadmin with hmutual
    · right
      obtain ⟨⟨clientCa, crl, hrequired⟩, hserving⟩ := mutual_secured hmutual
      have hallow : c.adminAllow ≠ [] := by
        intro hnil
        exact refuse_ok.mp hadmin ⟨by rw [hnil]; rfl, by rw [hdevelopment]; simp⟩
      refine ⟨⟨clientCa, crl, hauth.trans hrequired⟩, hallow, ?_⟩
      intro peer recorded hanswer
      exact permits_allowed (answer_handled hserving hanswer) hallow
    · left
      have htext := refuse_ok.mp hadmin
      rw [hdevelopment, not_not] at htext
      rw [hbound]
      exact isLoopback_bound hparse (by simpa using htext)

/-- An administrative surface on every interface, for one peer. -/
def namedAdmin : Config where
  publicHttpAddr := some "0.0.0.0:8080"
  adminAddr := some "0.0.0.0:9443"
  adminTls :=
    some { TlsSettings.new "tls/cert.pem" "tls/key.pem" with clientCa := some "tls/ca.pem" }
  adminAllow := [.commonName "ops"]

/-- One on the loopback address, without TLS. -/
def localAdmin : Config where
  publicHttpAddr := some "0.0.0.0:8080"
  adminAddr := some "127.0.0.1:9443"

/-- A system where every port and every file is there. -/
def freePorts : Transport where
  bind := fun
    | .v4 _ port => .ok port
    | .v6 _ port _ => .ok port
  material := fun _ => .ok ()

theorem admin_exposure_named :
    (∃ surface service, AdminService.start freePorts namedAdmin = .ok (some (surface, service)) ∧
      surface.bound.ip.isLoopback = false ∧
      ∀ peer recorded, service.answer peer recorded = .handled →
        ∃ p, peer = some p ∧ p.isAllowedBy [.commonName "ops"] = true) ∧
    ∃ surface service, AdminService.start freePorts localAdmin = .ok (some (surface, service)) ∧
      surface.bound.ip.isLoopback = true := by
  constructor
  · have hvalid : namedAdmin.validate (fun _ => true) = .ok () := by decide +kernel
    refine ⟨_, _, rfl, by decide +kernel, ?_⟩
    have h := admin_exposure hvalid rfl (t := freePorts) rfl
    rcases h with h | h
    · exact absurd h (by decide +kernel)
    · exact h.2.2
  · have hvalid : localAdmin.validate (fun _ => true) = .ok () := by decide +kernel
    refine ⟨_, _, rfl, ?_⟩
    have h := admin_exposure hvalid rfl (t := freePorts) rfl
    rcases h with h | ⟨-, hallow, -⟩
    · exact h
    · exact absurd rfl hallow

end PicX.Core
