/-!
# Palettes

The names of the colors in the two schemes of named colors, and the families of Brewer
palettes, whose colors are numbered.
-/

namespace DotAttributes.Palette

/-! ## The scheme `x11` -/

/-- Names that stand alone. -/
def x11Plain : List String :=
  ["aliceblue", "beige", "black", "blanchedalmond", "blueviolet", "cornflowerblue", "crimson",
    "darkgreen", "darkkhaki", "darksalmon", "darkslateblue", "darkslategrey", "darkturquoise",
    "darkviolet", "dimgray", "dimgrey", "floralwhite", "forestgreen", "gainsboro", "ghostwhite",
    "greenyellow", "indigo", "invis", "lavender", "lawngreen", "lightcoral",
    "lightgoldenrodyellow", "lightgray", "lightgrey", "lightseagreen", "lightslateblue",
    "lightslategray", "lightslategrey", "limegreen", "linen", "mediumaquamarine", "mediumblue",
    "mediumseagreen", "mediumslateblue", "mediumspringgreen", "mediumturquoise",
    "mediumvioletred", "midnightblue", "mintcream", "moccasin", "navy", "navyblue", "none",
    "oldlace", "palegoldenrod", "papayawhip", "peru", "powderblue", "saddlebrown", "sandybrown",
    "slategrey", "transparent", "violet", "white", "whitesmoke", "yellowgreen"]

/-- Names that also exist with the numbers from 1 to 4 behind them. -/
def x11Numbered : List String :=
  ["antiquewhite", "aquamarine", "azure", "bisque", "blue", "brown", "burlywood", "cadetblue",
    "chartreuse", "chocolate", "coral", "cornsilk", "cyan", "darkgoldenrod", "darkolivegreen",
    "darkorange", "darkorchid", "darkseagreen", "darkslategray", "deeppink", "deepskyblue",
    "dodgerblue", "firebrick", "gold", "goldenrod", "green", "honeydew", "hotpink", "indianred",
    "ivory", "khaki", "lavenderblush", "lemonchiffon", "lightblue", "lightcyan", "lightgoldenrod",
    "lightpink", "lightsalmon", "lightskyblue", "lightsteelblue", "lightyellow", "magenta",
    "maroon", "mediumorchid", "mediumpurple", "mistyrose", "navajowhite", "olivedrab", "orange",
    "orangered", "orchid", "palegreen", "paleturquoise", "palevioletred", "peachpuff", "pink",
    "plum", "purple", "red", "rosybrown", "royalblue", "salmon", "seagreen", "seashell", "sienna",
    "skyblue", "slateblue", "slategray", "snow", "springgreen", "steelblue", "tan", "thistle",
    "tomato", "turquoise", "violetred", "wheat", "yellow"]

/-- Names that also exist with the numbers from 0 to 100 behind them. -/
def x11Grays : List String := ["gray", "grey"]

/-! ## The scheme `svg` -/

/-- The names of the scheme. -/
def svg : List String :=
  ["aliceblue", "antiquewhite", "aqua", "aquamarine", "azure", "beige", "bisque", "black",
    "blanchedalmond", "blue", "blueviolet", "brown", "burlywood", "cadetblue", "chartreuse",
    "chocolate", "coral", "cornflowerblue", "cornsilk", "crimson", "cyan", "darkblue", "darkcyan",
    "darkgoldenrod", "darkgray", "darkgreen", "darkgrey", "darkkhaki", "darkmagenta",
    "darkolivegreen", "darkorange", "darkorchid", "darkred", "darksalmon", "darkseagreen",
    "darkslateblue", "darkslategray", "darkslategrey", "darkturquoise", "darkviolet", "deeppink",
    "deepskyblue", "dimgray", "dimgrey", "dodgerblue", "firebrick", "floralwhite", "forestgreen",
    "fuchsia", "gainsboro", "ghostwhite", "gold", "goldenrod", "gray", "grey", "green",
    "greenyellow", "honeydew", "hotpink", "indianred", "indigo", "ivory", "khaki", "lavender",
    "lavenderblush", "lawngreen", "lemonchiffon", "lightblue", "lightcoral", "lightcyan",
    "lightgoldenrodyellow", "lightgray", "lightgreen", "lightgrey", "lightpink", "lightsalmon",
    "lightseagreen", "lightskyblue", "lightslategray", "lightslategrey", "lightsteelblue",
    "lightyellow", "lime", "limegreen", "linen", "magenta", "maroon", "mediumaquamarine",
    "mediumblue", "mediumorchid", "mediumpurple", "mediumseagreen", "mediumslateblue",
    "mediumspringgreen", "mediumturquoise", "mediumvioletred", "midnightblue", "mintcream",
    "mistyrose", "moccasin", "navajowhite", "navy", "oldlace", "olive", "olivedrab", "orange",
    "orangered", "orchid", "palegoldenrod", "palegreen", "paleturquoise", "palevioletred",
    "papayawhip", "peachpuff", "peru", "pink", "plum", "powderblue", "purple", "red", "rosybrown",
    "royalblue", "saddlebrown", "salmon", "sandybrown", "seagreen", "seashell", "sienna",
    "silver", "skyblue", "slateblue", "slategray", "slategrey", "snow", "springgreen",
    "steelblue", "tan", "teal", "thistle", "tomato", "turquoise", "violet", "wheat", "white",
    "whitesmoke", "yellow", "yellowgreen"]

/-! ## Brewer palettes -/

/-- A family of palettes, one for each number of colors between two bounds. -/
structure Family where
  name : String
  smallest : Nat
  largest : Nat
deriving DecidableEq, Repr

/-- The families of palettes. -/
def families : List Family :=
  [⟨"accent", 3, 8⟩, ⟨"blues", 3, 9⟩, ⟨"brbg", 3, 11⟩, ⟨"bugn", 3, 9⟩, ⟨"bupu", 3, 9⟩,
    ⟨"dark2", 3, 8⟩, ⟨"gnbu", 3, 9⟩, ⟨"greens", 3, 9⟩, ⟨"greys", 3, 9⟩, ⟨"oranges", 3, 9⟩,
    ⟨"orrd", 3, 9⟩, ⟨"paired", 3, 12⟩, ⟨"pastel1", 3, 9⟩, ⟨"pastel2", 3, 8⟩, ⟨"piyg", 3, 11⟩,
    ⟨"prgn", 3, 11⟩, ⟨"pubu", 3, 9⟩, ⟨"pubugn", 3, 9⟩, ⟨"puor", 3, 11⟩, ⟨"purd", 3, 9⟩,
    ⟨"purples", 3, 9⟩, ⟨"rdbu", 3, 11⟩, ⟨"rdgy", 3, 11⟩, ⟨"rdpu", 3, 9⟩, ⟨"rdylbu", 3, 11⟩,
    ⟨"rdylgn", 3, 11⟩, ⟨"reds", 3, 9⟩, ⟨"set1", 3, 9⟩, ⟨"set2", 3, 8⟩, ⟨"set3", 3, 12⟩,
    ⟨"spectral", 3, 11⟩, ⟨"ylgn", 3, 9⟩, ⟨"ylgnbu", 3, 9⟩, ⟨"ylorbr", 3, 9⟩, ⟨"ylorrd", 3, 9⟩]

end DotAttributes.Palette
