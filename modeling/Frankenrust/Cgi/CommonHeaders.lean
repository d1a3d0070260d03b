import Frankenrust.Context.HeaderOrder

/-! The CGI names of request headers in `cgi.rs`: the table of the common ones and the
mangling of any other, which agree on the table. -/
namespace Frankenrust.Cgi
open Context

/-- `COMMON_HEADERS`. -/
def commonHeaderTexts : List (String × String) := [
  ("Accept","HTTP_ACCEPT"),("Accept-Charset","HTTP_ACCEPT_CHARSET"),
  ("Accept-Encoding","HTTP_ACCEPT_ENCODING"),("Accept-Language","HTTP_ACCEPT_LANGUAGE"),
  ("Access-Control-Request-Headers","HTTP_ACCESS_CONTROL_REQUEST_HEADERS"),
  ("Access-Control-Request-Method","HTTP_ACCESS_CONTROL_REQUEST_METHOD"),
  ("Authorization","HTTP_AUTHORIZATION"),("Cache-Control","HTTP_CACHE_CONTROL"),
  ("Connection","HTTP_CONNECTION"),("Content-Disposition","HTTP_CONTENT_DISPOSITION"),
  ("Content-Encoding","HTTP_CONTENT_ENCODING"),("Content-Length","HTTP_CONTENT_LENGTH"),
  ("Content-Type","HTTP_CONTENT_TYPE"),("Cookie","HTTP_COOKIE"),("Date","HTTP_DATE"),
  ("Device-Memory","HTTP_DEVICE_MEMORY"),("Dnt","HTTP_DNT"),("Downlink","HTTP_DOWNLINK"),("Dpr","HTTP_DPR"),
  ("Early-Data","HTTP_EARLY_DATA"),("Ect","HTTP_ECT"),("Am-I","HTTP_AM_I"),("Expect","HTTP_EXPECT"),
  ("Forwarded","HTTP_FORWARDED"),("From","HTTP_FROM"),("Host","HTTP_HOST"),("If-Match","HTTP_IF_MATCH"),
  ("If-Modified-Since","HTTP_IF_MODIFIED_SINCE"),("If-None-Match","HTTP_IF_NONE_MATCH"),
  ("If-Range","HTTP_IF_RANGE"),("If-Unmodified-Since","HTTP_IF_UNMODIFIED_SINCE"),
  ("Keep-Alive","HTTP_KEEP_ALIVE"),("Max-Forwards","HTTP_MAX_FORWARDS"),("Origin","HTTP_ORIGIN"),
  ("Pragma","HTTP_PRAGMA"),("Proxy-Authorization","HTTP_PROXY_AUTHORIZATION"),("Range","HTTP_RANGE"),
  ("Referer","HTTP_REFERER"),("Rtt","HTTP_RTT"),("Save-Data","HTTP_SAVE_DATA"),("Sec-Ch-Ua","HTTP_SEC_CH_UA"),
  ("Sec-Ch-Ua-Arch","HTTP_SEC_CH_UA_ARCH"),("Sec-Ch-Ua-Bitness","HTTP_SEC_CH_UA_BITNESS"),
  ("Sec-Ch-Ua-Full-Version","HTTP_SEC_CH_UA_FULL_VERSION"),
  ("Sec-Ch-Ua-Full-Version-List","HTTP_SEC_CH_UA_FULL_VERSION_LIST"),
  ("Sec-Ch-Ua-Mobile","HTTP_SEC_CH_UA_MOBILE"),("Sec-Ch-Ua-Model","HTTP_SEC_CH_UA_MODEL"),
  ("Sec-Ch-Ua-Platform","HTTP_SEC_CH_UA_PLATFORM"),
  ("Sec-Ch-Ua-Platform-Version","HTTP_SEC_CH_UA_PLATFORM_VERSION"),("Sec-Fetch-Dest","HTTP_SEC_FETCH_DEST"),
  ("Sec-Fetch-Mode","HTTP_SEC_FETCH_MODE"),("Sec-Fetch-Site","HTTP_SEC_FETCH_SITE"),
  ("Sec-Fetch-User","HTTP_SEC_FETCH_USER"),("Sec-Gpc","HTTP_SEC_GPC"),
  ("Service-Worker-Navigation-Preload","HTTP_SERVICE_WORKER_NAVIGATION_PRELOAD"),("Te","HTTP_TE"),
  ("Priority","HTTP_PRIORITY"),("Trailer","HTTP_TRAILER"),("Transfer-Encoding","HTTP_TRANSFER_ENCODING"),
  ("Upgrade","HTTP_UPGRADE"),("Upgrade-Insecure-Requests","HTTP_UPGRADE_INSECURE_REQUESTS"),
  ("User-Agent","HTTP_USER_AGENT"),("Via","HTTP_VIA"),("Viewport-Width","HTTP_VIEWPORT_WIDTH"),
  ("Want-Digest","HTTP_WANT_DIGEST"),("Warning","HTTP_WARNING"),("Width","HTTP_WIDTH"),
  ("X-Forwarded-For","HTTP_X_FORWARDED_FOR"),("X-Forwarded-Host","HTTP_X_FORWARDED_HOST"),
  ("X-Forwarded-Path","HTTP_X_FORWARDED_PATH"),("X-Forwarded-Prefix","HTTP_X_FORWARDED_PREFIX"),
  ("X-Forwarded-Proto","HTTP_X_FORWARDED_PROTO"),("A-Im","HTTP_A_IM"),
  ("Accept-Datetime","HTTP_ACCEPT_DATETIME"),("Content-Md5","HTTP_CONTENT_MD5"),
  ("Http2-Settings","HTTP_HTTP2_SETTINGS"),("Prefer","HTTP_PREFER"),
  ("X-Requested-With","HTTP_X_REQUESTED_WITH"),("Front-End-Https","HTTP_FRONT_END_HTTPS"),
  ("X-Http-Method-Override","HTTP_X_HTTP_METHOD_OVERRIDE"),("X-Att-Deviceid","HTTP_X_ATT_DEVICEID"),
  ("X-Wap-Profile","HTTP_X_WAP_PROFILE"),("Proxy-Connection","HTTP_PROXY_CONNECTION"),
  ("X-Uidh","HTTP_X_UIDH"),("X-Csrf-Token","HTTP_X_CSRF_TOKEN"),("X-Request-Id","HTTP_X_REQUEST_ID"),
  ("X-Correlation-Id","HTTP_X_CORRELATION_ID"),("Cloudflare-Visitor","HTTP_CLOUDFLARE_VISITOR"),
  ("Cloudfront-Viewer-Address","HTTP_CLOUDFRONT_VIEWER_ADDRESS"),
  ("Cloudfront-Viewer-Country","HTTP_CLOUDFRONT_VIEWER_COUNTRY"),("X-Amzn-Trace-Id","HTTP_X_AMZN_TRACE_ID"),
  ("X-Cloud-Trace-Context","HTTP_X_CLOUD_TRACE_CONTEXT"),("Cf-Ray","HTTP_CF_RAY"),
  ("Cf-Visitor","HTTP_CF_VISITOR"),("Cf-Request-Id","HTTP_CF_REQUEST_ID"),
  ("Cf-Ipcountry","HTTP_CF_IPCOUNTRY"),("X-Device-Type","HTTP_X_DEVICE_TYPE"),
  ("X-Network-Info","HTTP_X_NETWORK_INFO"),("X-Client-Id","HTTP_X_CLIENT_ID"),
  ("X-Livewire","HTTP_X_LIVEWIRE"),("X-Real-Ip","HTTP_X_REAL_IP")]

def commonHeaders : List (Bytes × Bytes) := commonHeaderTexts.map fun entry => (ascii entry.1,ascii entry.2)

def validHeaderFieldByte (byte : UInt8) : Bool :=
  (0x30 ≤ byte && byte ≤ 0x39) || (0x41 ≤ byte && byte ≤ 0x5a) || (0x61 ≤ byte && byte ≤ 0x7a) ||
    [0x21,0x23,0x24,0x25,0x26,0x27,0x2a,0x2b,0x2d,0x2e,0x5e,0x5f,0x60,0x7c,0x7e].contains byte

/-- The loop of `canonical_mime_header_name`; it looks at the byte it has just written. -/
def canonicalMimeFrom : Bool → Bytes → Bytes
  | _, [] => []
  | uppercase, byte :: rest =>
    let byte := if uppercase then toAsciiUppercase byte else toAsciiLowercase byte
    byte :: canonicalMimeFrom (byte == 0x2d) rest

def canonicalMimeHeaderName (name : Bytes) : Bytes :=
  if name.any fun byte => !validHeaderFieldByte byte then name else canonicalMimeFrom true name

def lookupCommonHeader (canonicalName : Bytes) : Option Bytes :=
  commonHeaders.findSome? fun entry => if entry.1 = canonicalName then some entry.2 else none

def commonHeaderVar (name : Bytes) : Option Bytes := lookupCommonHeader (canonicalMimeHeaderName name)

def httpPrefix : Bytes := ascii "HTTP_"

def mangleByte (byte : UInt8) : UInt8 := if byte = 0x2d then 0x5f else toAsciiUppercase byte

def mangleHeaderName (name : Bytes) : Bytes := httpPrefix ++ name.map mangleByte

def uncommonHeaderKey (name : Bytes) : Bytes := mangleHeaderName name ++ [nul]

/-- The loop over the values, which puts the separator before every one but the first. -/
def joinFrom : Nat → List Bytes → Bytes
  | _, [] => []
  | index, value :: rest => (if index ≠ 0 then ascii ", " else []) ++ value ++ joinFrom (index + 1) rest

def joinHeaderValues (values : List Bytes) : Bytes := joinFrom 0 values

theorem joinFrom_succ (index : Nat) (values : List Bytes) :
    joinFrom (index + 1) values = (values.map (ascii ", " ++ ·)).flatten := by
  induction values generalizing index with
  | nil => rfl
  | cons value rest ih => simp [joinFrom,ih]

theorem joinHeaderValues_eq (values : List Bytes) :
    joinHeaderValues values = (ascii ", ").intercalate values := by
  cases values with
  | nil => rfl
  | cons value rest =>
    rw [joinHeaderValues,joinFrom,joinFrom_succ]
    induction rest generalizing value with
    | nil => simp
    | cons next rest ih =>
      have later := ih next
      simp only [ne_eq,not_true_eq_false,if_false,List.nil_append] at later ⊢
      rw [List.intercalate_cons_cons,← later]
      simp

theorem mangleByte_facts (byte : UInt8) :
    (toAsciiUppercase byte == 0x2d) = (byte == 0x2d) ∧ (toAsciiLowercase byte == 0x2d) = (byte == 0x2d) ∧
      mangleByte (toAsciiUppercase byte) = mangleByte byte ∧
      mangleByte (toAsciiLowercase byte) = mangleByte byte ∧
      (isHeaderFieldByte byte = true → mangleByte byte ≠ nul) := by
  revert byte
  exact byte_cases (by decide +kernel)

theorem validHeaderFieldByte_eq (byte : UInt8) : validHeaderFieldByte byte = isHeaderFieldByte byte :=
  byte_cases (P := fun byte => validHeaderFieldByte byte = isHeaderFieldByte byte) (by decide +kernel) byte

theorem canonicalMime_eq (name : Bytes) : canonicalMimeHeaderName name = canonicalHeaderName name := by
  have loops : ∀ (uppercase : Bool) (name : Bytes), canonicalMimeFrom uppercase name = canonicalFrom uppercase name := by
    intro uppercase name
    induction name generalizing uppercase with
    | nil => rfl
    | cons byte rest ih =>
      obtain ⟨upper,lower,_⟩ := mangleByte_facts byte
      cases uppercase with
      | true => simp [canonicalMimeFrom,canonicalFrom,upper,ih]
      | false => simp [canonicalMimeFrom,canonicalFrom,lower,ih]
  simp only [canonicalMimeHeaderName,canonicalHeaderName,loops,List.any_eq_not_all_not,validHeaderFieldByte_eq,Bool.not_not]

theorem mangle_canonicalFrom (upperNext : Bool) (name : Bytes) :
    (canonicalFrom upperNext name).map mangleByte = name.map mangleByte := by
  induction name generalizing upperNext with
  | nil => rfl
  | cons byte rest ih =>
    obtain ⟨_,_,upper,lower,_⟩ := mangleByte_facts byte
    cases upperNext with
    | true => simp [canonicalFrom,upper,ih]
    | false => simp [canonicalFrom,lower,ih]

/-- Every spelling of a name mangles to the same variable as its canonical form. -/
theorem mangle_canonical (name : Bytes) : mangleHeaderName (canonicalHeaderName name) = mangleHeaderName name := by
  unfold canonicalHeaderName
  split
  · rfl
  · rw [mangleHeaderName,mangle_canonicalFrom,mangleHeaderName]

theorem mangle_plain {name : Bytes} (token : isToken name = true) : nul ∉ mangleHeaderName name := by
  rw [mangleHeaderName,List.mem_append,List.mem_map]
  rintro (front | ⟨byte,member,zero⟩)
  · revert front
    decide
  · exact (mangleByte_facts byte).2.2.2.2 (List.all_eq_true.mp (token_fields token) byte member) zero

theorem utf8EncodeChar_plain {char : Char} (plain : ∀ byte ∈ String.utf8EncodeChar char, byte < 0x80) :
    String.utf8EncodeChar char = [char.toUInt8] := by
  simp only [String.utf8EncodeChar] at plain ⊢
  by_cases narrow : char.val.toNat ≤ 0x7f
  · rw [if_pos narrow]
    rfl
  · -- a longer code starts with a byte from 0xc0 on
    rw [if_neg narrow] at plain
    split at plain <;> try split at plain
    all_goals
      have first := plain _ (List.mem_cons_self)
      rw [UInt8.lt_iff_toNat_lt] at first
      simp only [UInt8.toNat_ofNat',UInt8.reduceToNat,Nat.reducePow] at first
      omega

theorem ascii_eq {text : String} (plain : ∀ byte ∈ text.toByteArray.data.toList, byte < 0x80) :
    ascii text = text.toByteArray.data.toList := by
  obtain ⟨chars,rfl⟩ : ∃ chars, text = String.ofList chars := ⟨text.toList,by simp⟩
  have coded : (String.ofList chars).toByteArray.data.toList = chars.flatMap String.utf8EncodeChar := by
    simp [List.utf8Encode]
  rw [coded] at plain ⊢
  rw [ascii,String.toList_ofList]
  clear coded
  induction chars with
  | nil => rfl
  | cons char chars ih =>
    rw [List.flatMap_cons] at plain ⊢
    simp only [List.mem_append,or_imp,forall_and] at plain
    rw [utf8EncodeChar_plain plain.1,List.map_cons,ih plain.2]
    rfl

/-- The hand-kept table gives each name the variable that mangling gives it. -/
theorem commonHeaders_mangled {entry : Bytes × Bytes} (member : entry ∈ commonHeaders) :
    entry.2 = mangleHeaderName entry.1 := by
  -- the texts are compared in their encoded form, which the kernel computes faster
  have checked : (commonHeaderTexts.all fun texts =>
      (texts.1.toByteArray.data.toList ++ texts.2.toByteArray.data.toList).all (· < 0x80) &&
        texts.2.toByteArray.data.toList == mangleHeaderName texts.1.toByteArray.data.toList) = true := by
    decide +kernel
  obtain ⟨texts,inside,rfl⟩ := List.mem_map.mp member
  have entry := List.all_eq_true.mp checked texts inside
  simp only [Bool.and_eq_true,List.all_eq_true,decide_eq_true_eq,List.mem_append,or_imp,forall_and,
    beq_iff_eq] at entry
  rw [ascii_eq entry.1.1,ascii_eq entry.1.2,entry.2]

theorem lookupCommonHeader_mangled {canonicalName key : Bytes} (found : lookupCommonHeader canonicalName = some key) :
    key = mangleHeaderName canonicalName := by
  obtain ⟨entry,member,chosen⟩ := List.exists_of_findSome?_eq_some found
  split at chosen
  next same => rw [← same,← commonHeaders_mangled member,Option.some.inj chosen]
  next => cases chosen

end Frankenrust.Cgi
