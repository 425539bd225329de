import Namebridge.Text.Utf8

/-!
# Requests for files

A request for a URL is refused, or it is answered with a status and a body. A body can be cut short,
and then its receiver knows that bytes are missing.
-/

namespace Namebridge

/-- What comes of a request. -/
inductive Exchange where
  /-- The request could not be sent, or no answer came. -/
  | refused
  /-- An answer came. Without a body, the connection ended before all of it was there. -/
  | answered (status : Nat) (body : Option Bytes)
deriving DecidableEq, Repr

/-- What requests find. The answer can depend on the requests that were made before. -/
abbrev Network := (earlier : List String) → (url : String) → Exchange

/-- The network in which no request is answered. -/
def Network.offline : Network := fun _ _ => .refused

/-! ## The status of an answer -/

namespace Status

/-- Whether the answer holds what was asked for. -/
def isSuccess (status : Nat) : Bool := 200 ≤ status && status < 300

/-- The meaning of a status. -/
def reason? : Nat → Option String
  | 100 => "Continue"
  | 101 => "Switching Protocols"
  | 102 => "Processing"
  | 200 => "OK"
  | 201 => "Created"
  | 202 => "Accepted"
  | 203 => "Non Authoritative Information"
  | 204 => "No Content"
  | 205 => "Reset Content"
  | 206 => "Partial Content"
  | 207 => "Multi-Status"
  | 208 => "Already Reported"
  | 226 => "IM Used"
  | 300 => "Multiple Choices"
  | 301 => "Moved Permanently"
  | 302 => "Found"
  | 303 => "See Other"
  | 304 => "Not Modified"
  | 305 => "Use Proxy"
  | 307 => "Temporary Redirect"
  | 308 => "Permanent Redirect"
  | 400 => "Bad Request"
  | 401 => "Unauthorized"
  | 402 => "Payment Required"
  | 403 => "Forbidden"
  | 404 => "Not Found"
  | 405 => "Method Not Allowed"
  | 406 => "Not Acceptable"
  | 407 => "Proxy Authentication Required"
  | 408 => "Request Timeout"
  | 409 => "Conflict"
  | 410 => "Gone"
  | 411 => "Length Required"
  | 412 => "Precondition Failed"
  | 413 => "Payload Too Large"
  | 414 => "URI Too Long"
  | 415 => "Unsupported Media Type"
  | 416 => "Range Not Satisfiable"
  | 417 => "Expectation Failed"
  | 418 => "I'm a teapot"
  | 421 => "Misdirected Request"
  | 422 => "Unprocessable Entity"
  | 423 => "Locked"
  | 424 => "Failed Dependency"
  | 426 => "Upgrade Required"
  | 428 => "Precondition Required"
  | 429 => "Too Many Requests"
  | 431 => "Request Header Fields Too Large"
  | 451 => "Unavailable For Legal Reasons"
  | 500 => "Internal Server Error"
  | 501 => "Not Implemented"
  | 502 => "Bad Gateway"
  | 503 => "Service Unavailable"
  | 504 => "Gateway Timeout"
  | 505 => "HTTP Version Not Supported"
  | 506 => "Variant Also Negotiates"
  | 507 => "Insufficient Storage"
  | 508 => "Loop Detected"
  | 510 => "Not Extended"
  | 511 => "Network Authentication Required"
  | _ => none

/-- A status with its meaning. -/
def describe (status : Nat) : String :=
  s!"{status} " ++ (reason? status).getD "<unknown status code>"

end Status

end Namebridge
