/-! # Known tags

The tag names that the browser platform and the component runtime give a meaning to. Names are
compared as they are written, so case matters.
-/

namespace Stencil.Tag

/-- Elements of HTML. -/
def htmlTags : List String :=
  ["html", "body", "base", "head", "link", "meta", "style", "title", "address", "article", "aside",
    "footer", "header", "hgroup", "h1", "h2", "h3", "h4", "h5", "h6", "nav", "section", "div",
    "dd", "dl", "dt", "figcaption", "figure", "picture", "hr", "img", "li", "main", "ol", "p",
    "pre", "ul", "a", "b", "abbr", "bdi", "bdo", "br", "cite", "code", "data", "dfn", "em", "i",
    "kbd", "mark", "q", "rp", "rt", "ruby", "s", "samp", "small", "span", "strong", "sub", "sup",
    "time", "u", "var", "wbr", "area", "audio", "map", "track", "video", "embed", "object",
    "param", "source", "canvas", "script", "noscript", "del", "ins", "caption", "col", "colgroup",
    "table", "thead", "tbody", "td", "th", "tr", "button", "datalist", "fieldset", "form", "input",
    "label", "legend", "meter", "optgroup", "option", "output", "progress", "select", "textarea",
    "details", "dialog", "menu", "summary", "template", "blockquote", "iframe", "tfoot"]

/-- Elements of SVG. -/
def svgTags : List String :=
  ["svg", "animate", "animateMotion", "animateTransform", "circle", "clipPath", "color-profile",
    "defs", "desc", "discard", "ellipse", "feBlend", "feColorMatrix", "feComponentTransfer",
    "feComposite", "feConvolveMatrix", "feDiffuseLighting", "feDisplacementMap", "feDistantLight",
    "feDropShadow", "feFlood", "feFuncA", "feFuncB", "feFuncG", "feFuncR", "feGaussianBlur",
    "feImage", "feMerge", "feMergeNode", "feMorphology", "feOffset", "fePointLight",
    "feSpecularLighting", "feSpotLight", "feTile", "feTurbulence", "filter", "foreignObject", "g",
    "hatch", "hatchpath", "image", "line", "linearGradient", "marker", "mask", "mesh",
    "meshgradient", "meshpatch", "meshrow", "metadata", "mpath", "path", "pattern", "polygon",
    "polyline", "radialGradient", "rect", "set", "solidcolor", "stop", "switch", "symbol", "text",
    "textPath", "title", "tspan", "unknown", "use", "view"]

/-- Elements of MathML. -/
def mathMlTags : List String :=
  ["annotation", "annotation-xml", "maction", "maligngroup", "malignmark", "math", "menclose",
    "merror", "mfenced", "mfrac", "mfraction", "mglyph", "mi", "mlabeledtr", "mlongdiv",
    "mmultiscripts", "mn", "mo", "mover", "mpadded", "mphantom", "mprescripts", "mroot", "mrow",
    "ms", "mscarries", "mscarry", "msgroup", "msline", "mspace", "msqrt", "msrow", "mstack",
    "mstyle", "msub", "msubsup", "msup", "mtable", "mtd", "mtext", "mtr", "munder", "munderover",
    "none", "semantics"]

/-- Elements that have neither content nor an end tag. -/
def voidTags : List String :=
  ["area", "base", "br", "col", "embed", "hr", "img", "input", "link", "meta", "param", "source",
    "track", "wbr"]

/-- Components that come with the core of the runtime. -/
def coreComponents : List String :=
  ["Teleport", "teleport", "Suspense", "suspense", "KeepAlive", "keep-alive", "BaseTransition",
    "base-transition"]

/-- Components that come with the browser runtime. -/
def builtInComponents : List String :=
  ["Transition", "transition", "TransitionGroup", "transition-group"]

/-- Elements whose content is text and nothing else. -/
def rawTextTags : List String :=
  ["style", "iframe", "script", "noscript"]

/-- Elements whose content is text with character references. -/
def rcDataTags : List String :=
  ["textarea", "title"]

/-- Elements of MathML whose children are HTML. -/
def mathMlIntegrationPoints : List String :=
  ["mi", "mo", "mn", "ms", "mtext"]

/-- Elements of SVG whose children are HTML. -/
def svgIntegrationPoints : List String :=
  ["foreignObject", "desc", "title"]

/-- A tag is one of the names of a table. -/
def isOneOf (table : List String) (tag : List Char) : Bool :=
  table.contains (String.ofList tag)

def isHtml (tag : List Char) : Bool := isOneOf htmlTags tag

def isSvg (tag : List Char) : Bool := isOneOf svgTags tag

def isMathMl (tag : List Char) : Bool := isOneOf mathMlTags tag

/-- An element of the platform, whatever its vocabulary. -/
def isNative (tag : List Char) : Bool := isHtml tag || isSvg tag || isMathMl tag

def isVoid (tag : List Char) : Bool := isOneOf voidTags tag

/-- An element inside which white space is kept. -/
def isPre (tag : List Char) : Bool := tag == "pre".toList

def isCoreComponent (tag : List Char) : Bool := isOneOf coreComponents tag

def isBuiltInComponent (tag : List Char) : Bool := isOneOf builtInComponents tag

def isRawText (tag : List Char) : Bool := isOneOf rawTextTags tag

def isRcData (tag : List Char) : Bool := isOneOf rcDataTags tag

end Stencil.Tag
