/-!
# The runtime of an opened module

Code that every opened module carries along. A table has a proxy handler for every intercepted
value that is an object or a function. The wrapping function puts such a value behind a proxy with
an empty handler, which passes everything on; the applying function fills the handler, or gives
back the new value where there is no proxy.

## Main definitions

* `RuntimeNames` — the names the runtime goes by in one module
* `RuntimeNames.tableCode`, `RuntimeNames.helpersCode` — its code
* `objectLikeTest` — the condition under which a value is wrapped
-/

namespace Seams

/-- The names under which the runtime stands in one module. -/
structure RuntimeNames where
  handlerTable : String := "_rewireProxyHandlers"
  wrapFunction : String := "_rewireProxyIfNeeded"
  applyFunction : String := "_rewireApplyProxy"
  deriving DecidableEq, Repr

/-- Lines of code, one under the other. -/
def joinLines (lines : List String) : String :=
  "\n".intercalate lines

/-- The condition that holds of functions and of objects other than null. -/
def objectLikeTest (expression : String) : String :=
  s!"(typeof {expression} === 'function' || " ++
    s!"(typeof {expression} === 'object' && {expression} !== null))"

/-- Where the handlers of a proxy are explained. -/
def proxyHandlerDocs : String :=
  "https://developer.mozilla.org/en-US/docs/Web/JavaScript/Reference/" ++
    "Global_Objects/Proxy/Proxy#handler_functions"

namespace RuntimeNames

/-- The declaration of the handler table. It has to run before any import is wrapped. -/
def tableCode (names : RuntimeNames) : String :=
  s!"const {names.handlerTable} = \x7b\x7d;"

/-- The declaration of the wrapping function. -/
def wrapCode (names : RuntimeNames) : String :=
  let test := objectLikeTest "obj"
  joinLines [
    s!"function {names.wrapFunction}(obj, name) \x7b",
    s!"  if ({test}) \x7b",
    s!"    const handler = {names.handlerTable}[name] = \x7b\x7d;",
    "    return new Proxy(obj, handler);",
    "  \x7d",
    "  return obj;",
    "\x7d"]

/-- The expression for the message when a wrapped import is overridden by a plain value. -/
def complaintCode : String :=
  "'When rewiring proxied import \"' + name + '\", " ++
    s!"a proxy handler object must be provided, see: {proxyHandlerDocs}'"

/-- The declaration of the applying function. -/
def applyCode (names : RuntimeNames) : String :=
  let test := objectLikeTest "val"
  joinLines [
    s!"function {names.applyFunction}(maybeProxy, name, val) \x7b",
    s!"  const handler = {names.handlerTable}[name];",
    s!"  if (handler && {test}) \x7b",
    "    Object.keys(handler).forEach(k => delete handler[k]);",
    "    Object.keys(val).forEach(k => handler[k] = val[k]);",
    "    return maybeProxy;",
    "  \x7d else if (handler) \x7b",
    s!"    throw new Error({complaintCode});",
    "  \x7d",
    "  return val;",
    "\x7d"]

/-- The declarations of the two runtime functions. -/
def helpersCode (names : RuntimeNames) : String :=
  joinLines [names.wrapCode, names.applyCode]

end RuntimeNames

end Seams
