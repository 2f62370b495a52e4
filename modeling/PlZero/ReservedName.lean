/-!
# Reserved names

The generated C includes four standard headers and has a main function with two parameters,
so a program must not declare a name that C, those headers or the parameters use already.
Whole families are reserved by their first two characters, and the rest by name.
-/

namespace PlZero

namespace ReservedName

/-- The keywords of C, with those of its newer editions. -/
def cKeywords : List String :=
  ["auto", "break", "case", "char", "const", "continue", "default", "do", "double", "else",
    "enum", "extern", "float", "for", "goto", "if", "inline", "int", "long", "register",
    "restrict", "return", "short", "signed", "sizeof", "static", "struct", "switch", "typedef",
    "union", "unsigned", "void", "volatile", "while", "bool", "true", "false", "alignas",
    "alignof", "nullptr", "static_assert", "thread_local", "typeof", "constexpr"]

/-- Macros that compilers define outside their strict mode. -/
def predefinedMacros : List String :=
  ["unix", "linux", "i386"]

/-- What `stdio.h` declares, with the usual extensions. -/
def stdioNames : List String :=
  ["FILE", "fpos_t", "size_t", "NULL", "EOF", "BUFSIZ", "FILENAME_MAX", "FOPEN_MAX", "L_tmpnam",
    "SEEK_CUR", "SEEK_END", "SEEK_SET", "TMP_MAX", "stdin", "stdout", "stderr", "remove",
    "rename", "renameat", "tmpfile", "tmpnam", "tempnam", "fclose", "fflush", "fopen",
    "freopen", "fdopen", "fmemopen", "open_memstream", "setbuf", "setvbuf", "setlinebuf",
    "fprintf", "fscanf", "printf", "scanf", "snprintf", "sprintf", "sscanf", "dprintf",
    "asprintf", "vfprintf", "vfscanf", "vprintf", "vscanf", "vsnprintf", "vsprintf", "vsscanf",
    "vdprintf", "vasprintf", "fgetc", "fgets", "fputc", "fputs", "getc", "getchar", "gets",
    "getw", "putw", "putc", "putchar", "puts", "ungetc", "fread", "fwrite", "fgetpos", "fseek",
    "fseeko", "fsetpos", "ftell", "ftello", "rewind", "clearerr", "feof", "ferror", "perror",
    "fileno", "getline", "getdelim", "popen", "pclose", "ctermid", "flockfile", "ftrylockfile",
    "funlockfile", "getc_unlocked", "getchar_unlocked", "putc_unlocked", "putchar_unlocked",
    "off_t", "ssize_t", "va_list"]

/-- What `stdlib.h` declares, with the usual extensions. -/
def stdlibNames : List String :=
  ["div_t", "ldiv_t", "lldiv_t", "wchar_t", "EXIT_FAILURE", "EXIT_SUCCESS", "MB_CUR_MAX",
    "RAND_MAX", "atof", "atoi", "atol", "atoll", "strtod", "strtof", "strtold", "strtol",
    "strtoll", "strtoul", "strtoull", "rand", "rand_r", "srand", "random", "srandom",
    "initstate", "setstate", "drand48", "erand48", "lrand48", "nrand48", "mrand48", "jrand48",
    "srand48", "seed48", "lcong48", "aligned_alloc", "calloc", "free", "malloc", "realloc",
    "reallocarray", "posix_memalign", "valloc", "alloca", "abort", "atexit", "at_quick_exit",
    "on_exit", "exit", "quick_exit", "getenv", "secure_getenv", "setenv", "unsetenv", "putenv",
    "clearenv", "system", "realpath", "mktemp", "mkstemp", "mkstemps", "mkdtemp", "bsearch",
    "qsort", "abs", "labs", "llabs", "div", "ldiv", "lldiv", "mblen", "mbtowc", "wctomb",
    "mbstowcs", "wcstombs", "ecvt", "fcvt", "gcvt", "a64l", "l64a", "getsubopt", "grantpt",
    "ptsname", "unlockpt", "posix_openpt", "getloadavg"]

/-- What `string.h` declares, with the usual extensions. -/
def stringNames : List String :=
  ["memcpy", "memmove", "memccpy", "mempcpy", "memchr", "memrchr", "memcmp", "memset", "strcpy",
    "strncpy", "stpcpy", "stpncpy", "strcat", "strncat", "strcmp", "strncmp", "strcoll",
    "strxfrm", "strchr", "strrchr", "strchrnul", "strcspn", "strspn", "strpbrk", "strstr",
    "strcasestr", "strtok", "strtok_r", "strsep", "strdup", "strndup", "strlen", "strnlen",
    "strerror", "strerror_r", "strsignal", "strcasecmp", "strncasecmp", "bcopy", "bzero",
    "bcmp", "index", "rindex", "ffs", "basename"]

/-- What `errno.h` declares. -/
def errnoNames : List String :=
  ["errno"]

/-- The parameters of the main function. -/
def mainParameters : List String :=
  ["argc", "argv"]

/-- Every name that is reserved by itself. -/
def all : List String :=
  cKeywords ++ predefinedMacros ++ stdioNames ++ stdlibNames ++ stringNames ++ errnoNames ++
    mainParameters

/-- C reserves the names that begin with an underscore and then an underscore or a capital,
and `errno.h` those that begin with `E` and then a digit or a capital. -/
def inReservedFamily : List Char → Bool
  | '_' :: c :: _ => c = '_' || c.isUpper
  | 'E' :: c :: _ => c.isDigit || c.isUpper
  | _ => false

end ReservedName

/-- Whether a program must not declare `name`. -/
def isReserved (name : String) : Bool :=
  ReservedName.inReservedFamily name.toList || ReservedName.all.contains name

end PlZero
