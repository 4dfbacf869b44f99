/-! The schema that new users start with. -/

namespace SchemaLint

def sampleSchemaLines : List String := [
  "syntax = \"proto3\";",
  "",
  "package example.v1;",
  "",
  "import \"google/protobuf/timestamp.proto\";",
  "",
  "// A user in the system.",
  "message User \x7b",
  "  string user_id = 1;",
  "  string display_name = 2;",
  "  string email = 3;",
  "  google.protobuf.Timestamp created_at = 4;",
  "  UserRole role = 5;",
  "\x7d",
  "",
  "// Role of the user.",
  "enum UserRole \x7b",
  "  USER_ROLE_UNSPECIFIED = 0;",
  "  USER_ROLE_ADMIN = 1;",
  "  USER_ROLE_MEMBER = 2;",
  "  USER_ROLE_GUEST = 3;",
  "\x7d",
  "",
  "// Service for managing users.",
  "service UserService \x7b",
  "  // Creates a new user.",
  "  rpc CreateUser(CreateUserRequest) returns (User);",
  "  // Gets a user by ID.",
  "  rpc GetUser(GetUserRequest) returns (User);",
  "\x7d",
  "",
  "message CreateUserRequest \x7b",
  "  string display_name = 1;",
  "  string email = 2;",
  "\x7d",
  "",
  "message GetUserRequest \x7b",
  "  string user_id = 1;",
  "\x7d"]

/-- A sample schema. Each line ends with a line feed. -/
def sampleSchema : List Char :=
  sampleSchemaLines.flatMap fun line => line.toList ++ ['\n']

end SchemaLint
